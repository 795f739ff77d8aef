/-!
# Primitive kinds

* `Primitive`: the kinds of a single value on the wire;
* `Primitive.name`: the type name that schema generators write, which also enters the member hash;
* `Primitive.isInteger`: the kinds that can hold the length of an array.
-/

namespace MessageWire

/-- The kind of a single value. -/
inductive Primitive
  | int8
  | int16
  | int32
  | int64
  | float32
  | float64
  | boolean
  | byte
  | text
  deriving DecidableEq, Repr, Inhabited

namespace Primitive

/-- The type name of a kind. -/
def name : Primitive → String
  | int8 => "int8_t"
  | int16 => "int16_t"
  | int32 => "int32_t"
  | int64 => "int64_t"
  | float32 => "float"
  | float64 => "double"
  | boolean => "boolean"
  | byte => "byte"
  | text => "string"

/-- The width in bytes of a kind of fixed width. A text has none. -/
def width? : Primitive → Option Nat
  | int8 | boolean | byte => some 1
  | int16 => some 2
  | int32 | float32 => some 4
  | int64 | float64 => some 8
  | text => none

/-- Whether a value of the kind can count the elements of an array. -/
def isInteger : Primitive → Bool
  | int8 | int16 | int32 | int64 | byte => true
  | float32 | float64 | boolean | text => false

/-- The word by which a value of the kind is marked when it is inspected. -/
def mark : Primitive → String
  | int8 => "I8"
  | int16 => "I16"
  | int32 => "I32"
  | int64 => "I64"
  | float32 => "F32"
  | float64 => "F64"
  | boolean => "Bool"
  | byte => "Byte"
  | text => "String"

end Primitive

end MessageWire
