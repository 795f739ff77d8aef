import MessageWire.Schema.MemberHash
import MessageWire.Text.Ticked

/-!
# Building schemas

A description lists what a schema is to contain, one thing added after the other; building it checks
the list and computes what is left out.

* `SchemaError`: what is wrong with a description, and its text;
* `Description`: name, fields, constants and perhaps a base seed, `Addition`, `describe`;
* `Description.build`: the name is checked first, then every field in order (empty name, repeated
  name, dimensions outermost first), then every constant in order (empty name, repeated name,
  value);
* `declared_of_checkFields`: fields that pass are declared.
-/

namespace MessageWire

/-! ## Errors -/

/-- Why an array cannot take its length from a field. -/
inductive CountFault
  | missing
  | late
  | array
  | notInteger
  deriving DecidableEq, Repr

/-- The text of a fault. -/
def CountFault.text : CountFault → String
  | missing => "no such field"
  | late => "length field must be declared before the array"
  | array => "length field is an array"
  | notInteger => "length field is not an integer"

/-- Why a constant cannot have its value. -/
inductive ConstantFault
  | notNumeric
  | outOfRange
  | fractional
  deriving DecidableEq, Repr

/-- The text of a fault. -/
def ConstantFault.text : ConstantFault → String
  | notNumeric => "constants must be integer or floating-point"
  | outOfRange => "value out of range for its kind"
  | fractional => "floating-point value for an integer kind"

/-- What is wrong with a schema. -/
inductive SchemaError
  | emptyName (schema : String)
  | duplicateField (schema field : String)
  | duplicateConstant (schema name : String)
  | invalidLengthField (schema field lengthField : String) (reason : CountFault)
  | recursiveDefault (schema : String)
  | invalidConstant (schema name : String) (reason : ConstantFault)
  deriving DecidableEq, Repr

/-- The text of an error. -/
def SchemaError.message : SchemaError → String
  | emptyName schema => "schema and field names must not be empty (schema " ++ ticked schema ++ ")"
  | duplicateField schema field =>
    "duplicate field " ++ ticked field ++ " in schema " ++ ticked schema
  | duplicateConstant schema name =>
    "duplicate constant " ++ ticked name ++ " in schema " ++ ticked schema
  | invalidLengthField schema field lengthField reason =>
    "array " ++ ticked field ++ " in schema " ++ ticked schema ++ " cannot take its length from " ++
      ticked lengthField ++ ": " ++ reason.text
  | recursiveDefault schema =>
    "schema " ++ ticked schema ++ " embeds itself by value and has no finite default"
  | invalidConstant schema name reason =>
    "constant " ++ ticked name ++ " in schema " ++ ticked schema ++ ": " ++ reason.text

/-! ## Descriptions -/

/-- What a schema is to contain. Without a base seed the fields are hashed. -/
structure Description (n : Nat) where
  name : String
  fields : List (Field n)
  constants : List Constant
  baseSeed? : Option UInt64

/-- One thing that is added to a description. -/
inductive Addition (n : Nat)
  | field (f : Field n)
  | constant (c : Constant)
  | baseSeed (seed : UInt64)

namespace Description

variable {n : Nat}

/-- Fields and constants come last; a base seed takes the place of another. -/
def add (d : Description n) : Addition n → Description n
  | .field f => { d with fields := d.fields ++ [f] }
  | .constant c => { d with constants := d.constants ++ [c] }
  | .baseSeed seed => { d with baseSeed? := some seed }

/-- The description of a schema called `name` to which the rest is added in order. -/
def describe (name : String) (additions : List (Addition n)) : Description n :=
  additions.foldl add ⟨name, [], [], none⟩

/-- The least and the greatest value of an integer kind. -/
def bounds? : Primitive → Option (Int × Int)
  | .int8 => some (-2 ^ 7, 2 ^ 7 - 1)
  | .int16 => some (-2 ^ 15, 2 ^ 15 - 1)
  | .int32 => some (-2 ^ 31, 2 ^ 31 - 1)
  | .int64 => some (-2 ^ 63, 2 ^ 63 - 1)
  | .byte => some (0, 2 ^ 8 - 1)
  | .float32 | .float64 | .boolean | .text => none

/-- The value of a constant of kind `p`. A floating-point kind takes any number, an integer as the
nearest double. -/
def checkConstant (p : Primitive) (value : ConstantValue) : Except ConstantFault ConstantValue :=
  match p with
  | .float32 | .float64 => match value with
    | .int v => .ok (.float (.ofInt v.toInt))
    | .float v => .ok (.float v)
  | .boolean | .text => .error .notNumeric
  | .int8 | .int16 | .int32 | .int64 | .byte => match value, bounds? p with
    | .float _, _ => .error .fractional
    | .int v, some (least, greatest) =>
      if least ≤ v.toInt ∧ v.toInt ≤ greatest then .ok value else .error .outOfRange
    | .int _, none => .error .outOfRange

/-- The constants of a schema, none of them named as one of `earlier`. -/
def checkConstants (schema : String) :
    (earlier : List String) → List Constant → Except SchemaError (List Constant)
  | _, [] => .ok []
  | earlier, c :: rest =>
    if c.name = "" then .error (.emptyName schema)
    else if c.name ∈ earlier then .error (.duplicateConstant schema c.name)
    else match checkConstant c.kind c.value with
      | .error reason => .error (.invalidConstant schema c.name reason)
      | .ok value => do
        let rest ← checkConstants schema (c.name :: earlier) rest
        return { c with value } :: rest

/-- Whether the field called `c` can count elements of a field that has the fields `earlier` in
front of it and begins the list `rest`. -/
def checkCount (earlier rest : List (Field n)) (c : String) : Except CountFault Unit :=
  match earlier.find? (·.name == c) with
  | none => .error (if rest.any (·.name == c) then .late else .missing)
  | some f => match f.kind with
    | .primitive p => if p.isInteger then .ok () else .error .notInteger
    | .array .. => .error .array
    | .message _ => .error .notInteger

/-- The dimensions of a field called `field`, outermost first. -/
def checkExtents (schema field : String) (earlier rest : List (Field n)) :
    List Extent → Except SchemaError Unit
  | [] => .ok ()
  | .fixed _ :: extents => checkExtents schema field earlier rest extents
  | .counted c :: extents => match checkCount earlier rest c with
    | .error reason => .error (.invalidLengthField schema field c reason)
    | .ok () => checkExtents schema field earlier rest extents

/-- The fields of a schema, in order, after the fields `earlier`. -/
def checkFields (schema : String) : (earlier rest : List (Field n)) → Except SchemaError Unit
  | _, [] => .ok ()
  | earlier, f :: rest =>
    if f.name = "" then .error (.emptyName schema)
    else if earlier.any (·.name == f.name) then .error (.duplicateField schema f.name)
    else match checkExtents schema f.name earlier (f :: rest) f.kind.extents with
      | .error e => .error e
      | .ok () => checkFields schema (earlier ++ [f]) rest

theorem resolved_of_checkCount {earlier rest : List (Field n)} {c : String}
    (h : checkCount earlier rest c = .ok ()) : (Extent.counted c).Resolved earlier := by
  unfold checkCount at h
  split at h
  · cases h
  · rename_i f hf
    have hn := List.find?_some hf
    refine ⟨f, List.mem_of_find?_eq_some hf, by simpa using hn, ?_⟩
    cases hk : f.kind <;> simp_all [Kind.isInteger]

theorem resolved_of_checkExtents {schema field : String} {earlier rest : List (Field n)} :
    ∀ {extents : List Extent}, checkExtents schema field earlier rest extents = .ok () →
      ∀ x ∈ extents, x.Resolved earlier
  | [], _ => by simp
  | .fixed _ :: extents, h => by
    have : checkExtents schema field earlier rest extents = .ok () := h
    simpa [Extent.Resolved] using resolved_of_checkExtents this
  | .counted c :: extents, h => by
    unfold checkExtents at h
    split at h
    · cases h
    · rename_i hc
      have := resolved_of_checkExtents h
      simpa [resolved_of_checkCount hc] using this

/-- Fields that pass the check are declared. -/
theorem declared_of_checkFields {schema : String} :
    ∀ {earlier rest : List (Field n)}, checkFields schema earlier rest = .ok () →
      Declared earlier rest
  | _, [], _ => trivial
  | earlier, f :: rest, h => by
    unfold checkFields at h
    split at h
    · cases h
    split at h
    · cases h
    split at h
    · cases h
    rename_i hn hd _ hx
    refine ⟨hn, fun g hg e => hd ?_, resolved_of_checkExtents hx, declared_of_checkFields h⟩
    exact List.any_eq_true.2 ⟨g, hg, by simpa using e⟩

/-- The schema that a description describes, or the first thing that is wrong with it. -/
def build (d : Description n) : Except SchemaError (Schema n) :=
  if name_ne : d.name = "" then .error (.emptyName d.name)
  else match hf : checkFields d.name [] d.fields with
    | .error e => .error e
    | .ok () => match checkConstants d.name [] d.constants with
      | .error e => .error e
      | .ok constants => .ok
        { name := d.name
          fields := d.fields
          baseSeed := d.baseSeed?.getD (MemberHash.seed d.fields)
          constants
          name_ne
          declared := declared_of_checkFields hf }

end Description

end MessageWire
