import MessageWire.Binary.Basic
import MessageWire.Kind

/-!
# Schemas

A schema is the ordered list of fields of one type of message. Schemas refer to one another, and to
themselves, by their place in a catalog, so two schemas of a catalog are the same object exactly
when their places are equal.

* `Field`, `Constant`: the two kinds of members;
* `Declared`: names are new and not empty, and every counted extent names an earlier integer field;
* `Schema`: a declared list of fields with a base seed and named constants;
* `Catalog`: a finite family of schemas that may refer to one another in any way.
-/

namespace MessageWire

/-- A named field. -/
structure Field (n : Nat) where
  name : String
  kind : Kind n
  deriving DecidableEq, Repr

/-- The value of a named constant. -/
inductive ConstantValue
  | int (value : Int64)
  | float (value : Binary64)
  deriving DecidableEq

/-- A named number attached to a schema. It is never part of a message. -/
structure Constant where
  name : String
  kind : Primitive
  value : ConstantValue
  deriving DecidableEq

namespace Constant

/-- The value of an integer constant. -/
def toInt? (c : Constant) : Option Int64 :=
  match c.value with
  | .int v => some v
  | .float _ => none

/-- The value of a constant as a double, rounded if it has to be. -/
def toFloat (c : Constant) : Binary64 :=
  match c.value with
  | .int v => .ofInt v.toInt
  | .float v => v

end Constant

/-! ## Declared fields -/

section Declared

variable {n : Nat}

/-- A counted extent names an integer field among `earlier`. -/
def Extent.Resolved (earlier : List (Field n)) : Extent → Prop
  | .fixed _ => True
  | .counted c => ∃ f ∈ earlier, f.name = c ∧ f.kind.isInteger = true

instance (earlier : List (Field n)) : DecidablePred (Extent.Resolved earlier)
  | .fixed _ => isTrue trivial
  | .counted c => inferInstanceAs (Decidable (∃ f ∈ earlier, f.name = c ∧ f.kind.isInteger = true))

/-- The fields of a list that follows `earlier` have new names that are not empty, and every
extent is resolved by the fields in front of it. -/
def Declared (earlier : List (Field n)) : List (Field n) → Prop
  | [] => True
  | f :: rest =>
    f.name ≠ "" ∧ (∀ g ∈ earlier, g.name ≠ f.name) ∧ (∀ x ∈ f.kind.extents, x.Resolved earlier) ∧
      Declared (earlier ++ [f]) rest

instance decidableDeclared : (earlier rest : List (Field n)) → Decidable (Declared earlier rest)
  | _, [] => isTrue trivial
  | earlier, f :: rest =>
    have := decidableDeclared (earlier ++ [f]) rest
    inferInstanceAs (Decidable (_ ∧ _ ∧ _ ∧ _))

end Declared

/-! ## Schemas and catalogs -/

/-- The description of one type of message. The base seed stands for the fields in the
fingerprint. -/
structure Schema (n : Nat) where
  name : String
  fields : List (Field n)
  baseSeed : UInt64
  constants : List Constant
  name_ne : name ≠ ""
  declared : Declared [] fields

namespace Schema

variable {n : Nat} (S : Schema n)

/-- The place of the field called `name`. -/
def index? (name : String) : Option Nat := S.fields.findIdx? (·.name == name)

/-- The field called `name`. -/
def field? (name : String) : Option (Field n) := S.fields.find? (·.name == name)

/-- The constant called `name`. -/
def constant? (name : String) : Option Constant := S.constants.find? (·.name == name)

end Schema

/-- A family of `n` schemas that refer to one another by place. -/
abbrev Catalog (n : Nat) := Fin n → Schema n

/-- The text of a kind: the innermost type, then every dimension in brackets. -/
def Catalog.kindText {n : Nat} (G : Catalog n) (kind : Kind n) : String :=
  let leaf := match kind.leaf with
    | .primitive p => p.name
    | .message s => (G s).name
    | .array .. => ""
  kind.extents.foldl (fun text x => text ++ "[" ++ x.text ++ "]") leaf

end MessageWire
