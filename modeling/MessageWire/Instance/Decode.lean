import MessageWire.Value.Basic
import MessageWire.Wire.Read

/-!
# Decoding messages

A schema tells a decoder what to expect. The length of a counted array is the value of an earlier
field, held against the limit at the offset where that field began.

* `Read.count?`: a counting field among the fields read so far;
* `Read.kind`: a value of a kind, given an action for nested messages;
* `Read.fields`, `Read.message`: the fields of a message, for which some levels may be opened;
* `Instance.decode`: a whole message.
-/

namespace MessageWire

variable {n : Nat}

namespace Read

/-- The number that the field `c` of `S` holds, and the offset where it began, in a message of which
`done` has been read. -/
def count? (S : Schema n) (done : List (Value n × Nat)) (c : String) : Option (Int × Nat) := do
  let i ← S.index? c
  let (v, offset) ← done[i]?
  return (← v.toInt?, offset)

/-- The length of an array that `c` counts. -/
def counted (S : Schema n) (done : List (Value n × Nat)) (c : String) : Read Nat :=
  match count? S done c with
  | some (k, offset) => countAt k offset
  | none => throw (.unknownField c)

/-- A value of a kind, in a message of which `done` has been read. -/
def kind (nested : Fin n → Read (Value n)) (S : Schema n) (done : List (Value n × Nat)) :
    Kind n → Read (Value n)
  | .primitive p => return .scalar (← scalar p)
  | .message t => nested t
  | .array element (.fixed size) =>
    return .array (← times size.toNat (kind nested S done element))
  | .array element (.counted c) => do
    let k ← counted S done c
    return .array (← times k (kind nested S done element))

/-- The fields of a message of which `done` has been read, with the offsets where they began. -/
def fields (nested : Fin n → Read (Value n)) (S : Schema n) :
    (done : List (Value n × Nat)) → List (Field n) → Read (List (Value n × Nat))
  | done, [] => return done
  | done, f :: fs => do
    let offset ← position
    let v ← kind nested S done f.kind
    fields nested S (done ++ [(v, offset)]) fs

/-- The values of a message of schema `s`, which may be the outermost of `room` levels. -/
def message (G : Catalog n) : (room : Nat) → (s : Fin n) → Read (List (Value n))
  | 0, _ => do throw (.tooDeep (← get).limits.maxDepth)
  | room + 1, s => do
    let nested t := level (return Value.message t (← message G room t))
    return (← fields nested (G s) [] (G s).fields).map (·.1)

end Read

namespace Instance

/-- A message of schema `s` with its fingerprint. -/
def decode (G : Catalog n) (s : Fin n) : Read (Instance n) := do
  Read.expect (G s).name (G.fingerprint s)
  let room ← Read.levels
  Read.level (return ⟨s, ← Read.message G room s⟩)

/-- The message of schema `s` at the beginning of `bs`, under the standard limits. -/
def ofBytes (G : Catalog n) (s : Fin n) (bs : Bytes) : Except WireError (Instance n) :=
  ((decode G s).run (.memory bs) .standard).1

end Instance

end MessageWire
