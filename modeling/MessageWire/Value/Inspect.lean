import MessageWire.Binary.Decimal
import MessageWire.Text.Quoted
import MessageWire.Value.Basic

/-!
# Inspected forms

The text by which a schema, a kind or a value is shown to a developer: every part is marked by what
it is, and texts are quoted.

* `record`, `sequence`: named parts between braces, and elements between brackets;
* `Kind.inspect`, `Schema.inspect`: descriptions;
* `Value.inspect`, `Instance.inspect`: contents.
-/

namespace MessageWire

variable {n : Nat}

/-- A name with named parts, or the name alone when there are none. -/
def record (name : String) (parts : List (String × String)) : String :=
  if parts.isEmpty then name
  else name ++ " \x7b " ++ ", ".intercalate (parts.map fun (k, v) => k ++ ": " ++ v) ++ " \x7d"

/-- Elements between brackets. -/
def sequence (items : List String) : String := "[" ++ ", ".intercalate items ++ "]"

/-- A marked content. -/
def marked (mark content : String) : String := mark ++ "(" ++ content ++ ")"

/-! ## Descriptions -/

/-- An extent with its mode. -/
def Extent.inspect : Extent → String
  | .fixed size => marked "Fixed" (toString size.toNat)
  | .counted field => marked "Field" (quoted field)

/-- A kind, the outermost dimension first. Nested schemas are shown by name. -/
def Kind.inspect (G : Catalog n) : Kind n → String
  | .primitive p => marked "Primitive" p.mark
  | .message s => marked "Message" (marked "SchemaRef" (quoted (G s).name))
  | .array element x =>
    record "Array" [("element", element.inspect G), ("len", x.inspect)]

/-- A field with its kind. -/
def Field.inspect (G : Catalog n) (f : Field n) : String :=
  record "FieldDescriptor" [("name", quoted f.name), ("kind", f.kind.inspect G)]

/-- The value of a constant with its sort. -/
def ConstantValue.inspect : ConstantValue → String
  | .int v => marked "Int" (toString v.toInt)
  | .float v => marked "Float" v.text

/-- A constant with its kind. -/
def Constant.inspect (c : Constant) : String :=
  record "Constant" [("name", quoted c.name), ("kind", c.kind.mark), ("value", c.value.inspect)]

/-- A schema with all it contains. -/
def Schema.inspect (G : Catalog n) (S : Schema n) : String :=
  record "MessageSchema"
    [("name", quoted S.name), ("fields", sequence (S.fields.map (·.inspect G))),
      ("base_seed", "0x" ++ hexPadded 16 S.baseSeed.toNat),
      ("constants", sequence (S.constants.map (·.inspect)))]

/-- A fingerprint with its sixteen digits. -/
def Fingerprint.inspect (fp : Fingerprint) : String := marked "Fingerprint" fp.text

/-! ## Contents -/

/-- A scalar with its kind. -/
def Scalar.inspect (v : Scalar) : String :=
  marked v.kind.mark <| match v with
    | .int8 v => toString v.toInt
    | .int16 v => toString v.toInt
    | .int32 v => toString v.toInt
    | .int64 v => toString v.toInt
    | .float32 v => v.text
    | .float64 v => v.text
    | .boolean v => if v then "true" else "false"
    | .byte v => toString v.toNat
    | .text v => quoted v

mutual

/-- A value with its kind. -/
def Value.inspect (G : Catalog n) : Value n → String
  | .scalar v => v.inspect
  | .array items => marked "Array" (sequence (inspectAll G items))
  | .message s values =>
    marked "Message"
      (record (G s).name (((G s).fields.map (·.name)).zip (inspectAll G values)))

/-- Every value of a list with its kind. -/
def inspectAll (G : Catalog n) : List (Value n) → List String
  | [] => []
  | v :: vs => v.inspect G :: inspectAll G vs

end

/-- A message with the names of its fields. -/
def Instance.inspect (G : Catalog n) (m : Instance n) : String :=
  record (G m.schema).name (((G m.schema).fields.map (·.name)).zip (inspectAll G m.values))

end MessageWire
