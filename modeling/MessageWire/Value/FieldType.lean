import MessageWire.Value.Basic

/-!
# Values of a given type

* `FieldType`: a type of values that can be taken out of a field;
* `FieldType.name`: the name under which the type is asked for, which for an array does not tell
  its elements.
-/

namespace MessageWire

variable {n : Nat}

/-- A type of values that a field may hold. -/
class FieldType (α : Type) where
  name : String
  ofValue? {n : Nat} : Value n → Option α

namespace FieldType

instance : FieldType Int8 where
  name := "i8"
  ofValue? | .scalar (.int8 v) => some v | _ => none

instance : FieldType Int16 where
  name := "i16"
  ofValue? | .scalar (.int16 v) => some v | _ => none

instance : FieldType Int32 where
  name := "i32"
  ofValue? | .scalar (.int32 v) => some v | _ => none

instance : FieldType Int64 where
  name := "i64"
  ofValue? | .scalar (.int64 v) => some v | _ => none

instance : FieldType Binary32 where
  name := "f32"
  ofValue? | .scalar (.float32 v) => some v | _ => none

instance : FieldType Binary64 where
  name := "f64"
  ofValue? | .scalar (.float64 v) => some v | _ => none

instance : FieldType Bool where
  name := "bool"
  ofValue? := Value.toBool?

instance : FieldType UInt8 where
  name := "u8"
  ofValue? | .scalar (.byte v) => some v | _ => none

instance : FieldType String where
  name := "string"
  ofValue? := Value.toText?

instance {α : Type} [FieldType α] : FieldType (List α) where
  name := "array"
  ofValue? v := v.items?.bind (·.mapM ofValue?)

end FieldType

end MessageWire
