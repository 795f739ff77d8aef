import MessageWire.Scalar
import MessageWire.Limits.Basic
import MessageWire.Wire.Sink

/-!
# Writing scalars

An encoder puts scalars into a sink, big-endian, and counts the bytes that are complete.

* `Encoder`, `Write`: a sink with a position, and the actions on it;
* `Write.all`: bytes that count only if the sink takes all of them;
* `Write.text`, `Write.scalar`, `Write.fingerprint`: the forms on the wire.
-/

namespace MessageWire

/-- A sink and the number of bytes written to it in complete writes. -/
structure Encoder where
  sink : Sink
  position : Nat

/-- An encoder at the beginning of a sink. -/
def Encoder.new (sink : Sink) : Encoder := ⟨sink, 0⟩

/-- An action that writes. -/
abbrev Write := EStateM WireError Encoder

namespace Write

/-- Writes all of `bs`, or fails with what the sink answers. -/
def all (bs : Bytes) : Write Unit := fun ⟨sink, position⟩ =>
  match sink.write bs with
  | (.ok (), sink) => .ok () ⟨sink, position + bs.length⟩
  | (.error fault, sink) => .error (.io fault) ⟨sink, position⟩

/-- Flushes the sink. -/
def flush : Write Unit := fun e =>
  match e.sink.flushFault? with
  | none => .ok () e
  | some fault => .error (.io fault) e

/-- A big-endian word of `w` bytes. -/
def word (w n : Nat) : Write Unit := all (BigEndian.encode w n)

/-- A text: the length of content and terminator, the content, the terminator. A text that holds a
terminator, or is too long for its length, is refused before anything is written. -/
def text (s : String) : Write Unit := do
  let position := (← get).position
  let bytes := utf8 s
  match bytes.findIdx? (· == terminator) with
  | some i => throw (.embeddedNul (position + textLengthSize + i))
  | none =>
    if 2 ^ 31 ≤ bytes.length + 1 then throw (.invalidLength .text bytes.length position)
    word textLengthSize (bytes.length + 1)
    all bytes
    all [terminator]

/-- A scalar of any kind. A boolean is one or zero. -/
def scalar : Scalar → Write Unit
  | .int8 v => word 1 v.toBitVec.toNat
  | .int16 v => word 2 v.toBitVec.toNat
  | .int32 v => word 4 v.toBitVec.toNat
  | .int64 v => word 8 v.toBitVec.toNat
  | .float32 v => word 4 v.bits.toNat
  | .float64 v => word 8 v.bits.toNat
  | .boolean v => word 1 v.toNat
  | .byte v => word 1 v.toNat
  | .text v => text v

/-- A fingerprint. -/
def fingerprint (fp : Fingerprint) : Write Unit := all fp.toBytes

/-- What an action leaves in a sink, and its error if it fails. -/
def into (sink : Sink) (act : Write Unit) : Except WireError Unit × Sink :=
  match act (.new sink) with
  | .ok () e => (.ok (), e.sink)
  | .error error e => (.error error, e.sink)

/-- The bytes that an action writes to a sink that is never full. -/
def toBytes (act : Write Unit) : Except WireError Bytes :=
  match into .memory act with
  | (.ok (), sink) => .ok sink.held.toList
  | (.error error, _) => .error error

end Write

end MessageWire
