import MessageWire.Primitive

/-!
# Field kinds

A field holds a primitive value, a message of some schema, or an array of either, in any number of
dimensions. Schemas are named by their place in a family of `n` schemas.

* `Extent`: how many elements one dimension has;
* `Kind`: arrays nest, the outermost dimension first;
* `Kind.leaf`, `Kind.extents`, `Kind.nested?`: the innermost kind, the dimensions, and the schema of
  the messages inside.
-/

namespace MessageWire

/-- The number of elements of one dimension: a constant, which is not on the wire, or the value of
an earlier integer field of the same message. -/
inductive Extent
  | fixed (size : UInt64)
  | counted (field : String)
  deriving DecidableEq, Repr

/-- The text of an extent between its brackets. -/
def Extent.text : Extent → String
  | .fixed size => toString size.toNat
  | .counted field => field

/-- What a field holds. -/
inductive Kind (n : Nat)
  | primitive (p : Primitive)
  | message (schema : Fin n)
  | array (element : Kind n) (extent : Extent)
  deriving DecidableEq, Repr

namespace Kind

variable {n : Nat}

/-- The kind of the innermost elements, the kind itself if it is no array. -/
def leaf : Kind n → Kind n
  | .array element _ => element.leaf
  | kind => kind

/-- The dimensions, outermost first. -/
def extents : Kind n → List Extent
  | .array element extent => extent :: element.extents
  | _ => []

/-- The schema of the innermost elements, if they are messages. -/
def nested? (kind : Kind n) : Option (Fin n) :=
  match kind.leaf with
  | .message s => some s
  | _ => none

/-- An array of the given dimensions, outermost first. -/
def ofExtents (leaf : Kind n) (extents : List Extent) : Kind n :=
  extents.foldr (fun extent element => .array element extent) leaf

/-- Whether the kind is that of an integer, which can count the elements of an array. -/
def isInteger : Kind n → Bool
  | .primitive p => p.isInteger
  | _ => false

end Kind

end MessageWire
