import MessageWire.Binary.Basic
import MessageWire.Bytes.Utf8
import MessageWire.Primitive

/-!
# Scalars

A scalar is a value of a primitive kind. Floats are their bits, so equality of scalars agrees with
equality of what is written for them.

* `Scalar`, `Scalar.kind`: the values and their kinds;
* `Scalar.zero`: the value of a field that nobody has set;
* `Scalar.toInt?`, `Scalar.ofCount?`: integers of any kind, as numbers of elements.
-/

namespace MessageWire

/-- A value of a primitive kind. -/
inductive Scalar
  | int8 (v : Int8)
  | int16 (v : Int16)
  | int32 (v : Int32)
  | int64 (v : Int64)
  | float32 (v : Binary32)
  | float64 (v : Binary64)
  | boolean (v : Bool)
  | byte (v : UInt8)
  | text (v : String)
  deriving DecidableEq

namespace Scalar

/-- The kind of a scalar. -/
def kind : Scalar → Primitive
  | int8 _ => .int8
  | int16 _ => .int16
  | int32 _ => .int32
  | int64 _ => .int64
  | float32 _ => .float32
  | float64 _ => .float64
  | boolean _ => .boolean
  | byte _ => .byte
  | text _ => .text

/-- Zero, false or the empty text. -/
def zero : Primitive → Scalar
  | .int8 => int8 0
  | .int16 => int16 0
  | .int32 => int32 0
  | .int64 => int64 0
  | .float32 => float32 ⟨0⟩
  | .float64 => float64 ⟨0⟩
  | .boolean => boolean false
  | .byte => byte 0
  | .text => text ""

@[simp] theorem kind_zero (p : Primitive) : (zero p).kind = p := by cases p <;> rfl

/-- The number that an integer holds. -/
def toInt? : Scalar → Option Int
  | int8 v => some v.toInt
  | int16 v => some v.toInt
  | int32 v => some v.toInt
  | int64 v => some v.toInt
  | byte v => some v.toNat
  | _ => none

/-- The number that a float holds, in double precision. -/
def toFloat? : Scalar → Option Binary64
  | float32 v => some v.widen
  | float64 v => some v
  | _ => none

/-- The integer of kind `p` that holds the number `k`, if there is one. -/
def ofCount? (p : Primitive) (k : Nat) : Option Scalar :=
  match p with
  | .int8 => if k < 2 ^ 7 then some (int8 (.ofNat k)) else none
  | .int16 => if k < 2 ^ 15 then some (int16 (.ofNat k)) else none
  | .int32 => if k < 2 ^ 31 then some (int32 (.ofNat k)) else none
  | .int64 => if k < 2 ^ 63 then some (int64 (.ofNat k)) else none
  | .byte => if k < 2 ^ 8 then some (byte (.ofNat k)) else none
  | .float32 | .float64 | .boolean | .text => none

/-- The number of bytes that a scalar takes on the wire. A text has its length in front and a
terminator behind. -/
def size : Scalar → Nat
  | int8 _ | boolean _ | byte _ => 1
  | int16 _ => 2
  | int32 _ | float32 _ => 4
  | int64 _ | float64 _ => 8
  | text s => 4 + (utf8 s).length + 1

end Scalar

end MessageWire
