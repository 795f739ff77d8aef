import MessageWire.Scalar
import MessageWire.Limits.Basic
import MessageWire.Wire.Source

/-!
# Reading scalars

A decoder takes scalars from a source, big-endian, keeps the offset of the next one, and holds every
length and every level of nesting against its limits.

* `Decoder`, `Read`: a source with an offset, limits and a depth, and the actions on it;
* `Read.fixed`: a word, which moves the offset only when it is complete;
* `Read.content`: bytes of a length that came from the source;
* `Read.text`, `Read.scalar`, `Read.fingerprint`: the forms on the wire;
* `Read.count`, `Read.enter`, `Read.leave`, `Read.level`: the limits;
* `Read.times`: an action for every element of an array.
-/

namespace MessageWire

/-- A source, the number of bytes read from it, and the limits with the number of levels that are
open. -/
structure Decoder where
  source : Source
  position : Nat
  limits : Limits
  depth : Nat

/-- A decoder at the beginning of a source. -/
def Decoder.new (source : Source) (limits : Limits) : Decoder := ⟨source, 0, limits, 0⟩

/-- An action that reads. -/
abbrev Read := EStateM WireError Decoder

namespace Read

/-- A failure of a source as an error: the end of the input means that `needed` bytes at `offset`
are missing. -/
def ofFault (offset needed : Nat) (fault : Fault) : WireError :=
  match fault.kind with
  | .endOfInput => .truncated offset needed
  | _ => .io fault

/-- The offset of the next byte. -/
def position : Read Nat := return (← get).position

/-! ## Bytes -/

/-- Exactly `k` bytes. The offset stays when they are not complete. -/
def fixed (k : Nat) : Read Bytes := fun d =>
  match d.source.exactly k with
  | (.ok bs, source) => .ok bs { d with source, position := d.position + k }
  | (.error fault, source) => .error (ofFault d.position k fault) { d with source }

/-- The `k` bytes of a content. On a source that ends the offset moves by what there was. -/
def content (k : Nat) : Read Bytes := fun d =>
  match d.source.upTo k with
  | (.ok bs, source) =>
    let d := { d with source, position := d.position + bs.length }
    if bs.length < k then .error (.truncated d.position (k - bs.length)) d else .ok bs d
  | (.error fault, source) => .error (ofFault d.position k fault) { d with source }

/-- A big-endian word of `w` bytes. -/
def word (w : Nat) : Read Nat := return BigEndian.decode (← fixed w)

/-! ## Scalars -/

/-- A signed byte. -/
def int8 : Read Int8 := return .ofBitVec (.ofNat 8 (← word 1))

/-- A signed word of two bytes. -/
def int16 : Read Int16 := return .ofBitVec (.ofNat 16 (← word 2))

/-- A signed word of four bytes. -/
def int32 : Read Int32 := return .ofBitVec (.ofNat 32 (← word 4))

/-- A signed word of eight bytes. -/
def int64 : Read Int64 := return .ofBitVec (.ofNat 64 (← word 8))

/-- A float of four bytes. -/
def float32 : Read Binary32 := return ⟨.ofNat (← word 4)⟩

/-- A float of eight bytes. -/
def float64 : Read Binary64 := return ⟨.ofNat (← word 8)⟩

/-- An unsigned byte. -/
def byte : Read UInt8 := return .ofNat (← word 1)

/-- A boolean, true for every byte but zero. -/
def boolean : Read Bool := return (← byte) != 0

/-- A text. Its length counts the terminator; the terminator may be any byte, and is read before
the content is looked at. -/
def text : Read String := do
  let start ← position
  let length := (← int32).toInt
  let limit := (← get).limits.maxTextLength
  if length < 1 ∨ limit.toNat < length - 1 then throw (.invalidLength .text length start)
  let offset ← position
  let bytes ← content (length - 1).toNat
  let _ ← byte
  match bytes.findIdx? (· == terminator) with
  | some i => throw (.embeddedNul (offset + i))
  | none => match ofUtf8? bytes with
    | some s => return s
    | none => throw (.invalidUtf8 offset)

/-- A scalar of a given kind. -/
def scalar : Primitive → Read Scalar
  | .int8 => return .int8 (← int8)
  | .int16 => return .int16 (← int16)
  | .int32 => return .int32 (← int32)
  | .int64 => return .int64 (← int64)
  | .float32 => return .float32 (← float32)
  | .float64 => return .float64 (← float64)
  | .boolean => return .boolean (← boolean)
  | .byte => return .byte (← byte)
  | .text => return .text (← text)

/-- A fingerprint. -/
def fingerprint : Read Fingerprint := return .ofBytes (← fixed fingerprintSize)

/-- The fingerprint of the schema called `schema`, which must be `expected`. -/
def expect (schema : String) (expected : Fingerprint) : Read Unit := do
  let found ← fingerprint
  if found ≠ expected then throw (.fingerprintMismatch schema expected found)

/-! ## Limits -/

/-- A number of elements that was read at `offset`. -/
def countAt (k : Int) (offset : Nat) : Read Nat := do
  let limit := (← get).limits.maxArrayLength
  if k < 0 ∨ limit.toNat < k then throw (.invalidLength .array k offset)
  return k.toNat

/-- A number of elements that has just been read. An error points behind it. -/
def count (k : Int) : Read Nat := do countAt k (← position)

/-- Opens a level. -/
def enter : Read Unit := do
  let d ← get
  if d.limits.maxDepth.toNat ≤ d.depth then throw (.tooDeep d.limits.maxDepth)
  set { d with depth := d.depth + 1 }

/-- Closes a level, if one is open. -/
def leave : Read Unit := modify fun d => { d with depth := d.depth - 1 }

variable {α : Type}

/-- An action on a level of its own, which is closed also when the action fails. -/
def level (act : Read α) : Read α := do
  enter
  fun d => match act d with
    | .ok a d => .ok a { d with depth := d.depth - 1 }
    | .error e d => .error e { d with depth := d.depth - 1 }

/-- The levels that may still be opened. -/
def levels : Read Nat := return (← get).limits.maxDepth.toNat - (← get).depth

/-! ## Repetition -/

/-- An action `k` times, after the results `done`, which are in reverse. -/
def timesAfter (act : Read α) : (k : Nat) → (done : List α) → Read (List α)
  | 0, done => return done.reverse
  | k + 1, done => do timesAfter act k ((← act) :: done)

/-- An action `k` times, with its results in order. -/
def times (k : Nat) (act : Read α) : Read (List α) := timesAfter act k []

/-- What was done before only stands in front. -/
theorem timesAfter_eq (act : Read α) :
    ∀ (k : Nat) (done : List α), timesAfter act k done = (done.reverse ++ ·) <$> times k act
  | 0, done => by simp [times, timesAfter]
  | k + 1, done => by
    simp only [times, timesAfter, map_bind]
    congr 1
    funext a
    rw [timesAfter_eq act k (a :: done), timesAfter_eq act k [a]]
    simp

@[simp] theorem times_zero (act : Read α) : times 0 act = pure [] := rfl

theorem times_succ (act : Read α) (k : Nat) :
    times (k + 1) act = do return (← act) :: (← times k act) := by
  simp only [times, timesAfter]
  congr 1
  funext a
  rw [timesAfter_eq act k [a]]
  simp [times]

/-- What an action reads from a source, and what it leaves of it. -/
def run (source : Source) (limits : Limits) (act : Read α) : Except WireError α × Source :=
  match act (.new source limits) with
  | .ok a d => (.ok a, d.source)
  | .error e d => (.error e, d.source)

end Read

end MessageWire
