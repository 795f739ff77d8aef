import MessageWire.Value.Basic
import MessageWire.Wire.Write

/-!
# Encoding messages

A message is its fingerprint and its fields, in order. Arrays and nested messages are their elements
and fields and nothing else; the length of an array is checked against its extent and not written.

* `Write.extent`: the length that an extent asks for, counted by a field of the same message;
* `Write.value`, `Write.values`: a field, and a list of fields;
* `Instance.encode`, `Instance.toBytes`: a whole message.
-/

namespace MessageWire

variable {n : Nat}

namespace Write

/-- The value of `field` does not have the shape of `kind`. -/
def mismatch {α : Type} (G : Catalog n) (field : String) (kind : Kind n) : Write α :=
  throw (.typeMismatch field (G.kindText kind))

/-- The length that an extent of `field` asks for in a message of schema `s` with values
`siblings`. -/
def extent (G : Catalog n) (s : Fin n) (siblings : List (Value n)) (field : String) :
    Extent → Write Nat
  | .fixed size => return size.toNat
  | .counted c => do
    let some v := (G s).index? c |>.bind (siblings[·]?) | throw (.unknownField c)
    let some k := v.toInt?
      | throw (.typeMismatch c ("integer count for " ++ ticked field))
    if k < 0 then throw (.invalidLength .array k (← get).position)
    return k.toNat

mutual

/-- The value `v` of `field`, in a message of schema `s` with values `siblings`. -/
def value (G : Catalog n) (s : Fin n) (siblings : List (Value n)) (field : String) :
    Kind n → Value n → Write Unit
  | .primitive p, .scalar v =>
    if v.kind = p then scalar v else mismatch G field (.primitive p)
  | .message t, .message u values =>
    if G.compatible u t then fields G u values (G u).fields values
    else mismatch G field (.message t)
  | .array element x, .array items => do
    let k ← extent G s siblings field x
    if items.length ≠ k then throw (.lengthMismatch field k items.length)
    elements G s siblings field element items
  | kind, _ => mismatch G field kind

/-- The elements of an array, in order. -/
def elements (G : Catalog n) (s : Fin n) (siblings : List (Value n)) (field : String)
    (kind : Kind n) : List (Value n) → Write Unit
  | [] => return
  | v :: vs => do
    value G s siblings field kind v
    elements G s siblings field kind vs

/-- The fields of a message of schema `s` with values `siblings`, in order, as long as there are
values for them. -/
def fields (G : Catalog n) (s : Fin n) (siblings : List (Value n)) :
    List (Field n) → List (Value n) → Write Unit
  | f :: fs, v :: vs => do
    value G s siblings f.name f.kind v
    fields G s siblings fs vs
  | _, _ => return

end

end Write

namespace Instance

variable (G : Catalog n) (m : Instance n)

/-- The fields of a message, without a fingerprint. -/
def encodeFields : Write Unit := Write.fields G m.schema m.values (G m.schema).fields m.values

/-- A message with its fingerprint. -/
def encode : Write Unit := do
  Write.fingerprint (G.fingerprint m.schema)
  m.encodeFields G
  Write.flush

/-- The bytes of a message. -/
def toBytes : Except WireError Bytes := (m.encode G).toBytes

end Instance

end MessageWire
