import MessageWire.Fingerprint
import MessageWire.Scalar

/-!
# Values and instances

A value is a scalar, an array or a message. A message is bound to its schema, which says what its
values are called; whether the values have the shape that the schema asks for is another matter.

* `Value`, `Instance`: values, and messages by themselves;
* `Value.agrees`, `Instance.agrees`: equality, which lets compatible schemas stand for each other;
* `Value.conforms`: the shape that a kind asks for, counted extents apart;
* `Value.size`, `Instance.size`: the number of bytes on the wire.
-/

namespace MessageWire

variable {n : Nat}

/-- What a field, or an element of an array, holds. -/
inductive Value (n : Nat)
  | scalar (v : Scalar)
  | array (items : List (Value n))
  | message (schema : Fin n) (values : List (Value n))

instance : Inhabited (Value n) := ⟨.scalar (.boolean false)⟩

/-- A message: the values of its fields, in the order of its schema. -/
structure Instance (n : Nat) where
  schema : Fin n
  values : List (Value n)

/-- A message as a value of another. -/
def Instance.toValue (m : Instance n) : Value n := .message m.schema m.values

namespace Value

/-- The kind of a scalar. -/
def primitive? : Value n → Option Primitive
  | .scalar v => some v.kind
  | _ => none

/-- The number that an integer holds. -/
def toInt? : Value n → Option Int
  | .scalar v => v.toInt?
  | _ => none

/-- The number that a float holds, in double precision. -/
def toFloat? : Value n → Option Binary64
  | .scalar v => v.toFloat?
  | _ => none

/-- The truth value that a boolean holds. -/
def toBool? : Value n → Option Bool
  | .scalar (.boolean v) => some v
  | _ => none

/-- The text that a text holds. -/
def toText? : Value n → Option String
  | .scalar (.text v) => some v
  | _ => none

/-- The elements of an array. -/
def items? : Value n → Option (List (Value n))
  | .array items => some items
  | _ => none

/-- The message that a value is. -/
def instance? : Value n → Option (Instance n)
  | .message schema values => some ⟨schema, values⟩
  | _ => none

/-! ## Equality -/

mutual

/-- Equal scalars, arrays of equal elements, or messages of compatible schemas with equal
values. -/
def agrees (G : Catalog n) : Value n → Value n → Bool
  | .scalar a, .scalar b => a == b
  | .array as, .array bs => agreesAll G as bs
  | .message s as, .message t bs => G.compatible s t && agreesAll G as bs
  | _, _ => false

/-- Two lists of the same length agree place by place. -/
def agreesAll (G : Catalog n) : List (Value n) → List (Value n) → Bool
  | [], [] => true
  | a :: as, b :: bs => agrees G a b && agreesAll G as bs
  | _, _ => false

end

/-! ## Shape -/

mutual

/-- A value of the right primitive kind, a message of a compatible schema, or an array of
conforming elements, whose number is checked for a fixed extent only. -/
def conforms (G : Catalog n) : Value n → Kind n → Bool
  | .scalar v, .primitive p => v.kind == p
  | .message s _, .message t => G.compatible s t
  | .array items, .array element (.fixed size) =>
    items.length == size.toNat && conformsAll G items element
  | .array items, .array element (.counted _) => conformsAll G items element
  | _, _ => false

/-- Every value of a list conforms to a kind. -/
def conformsAll (G : Catalog n) : List (Value n) → Kind n → Bool
  | [], _ => true
  | v :: vs, kind => conforms G v kind && conformsAll G vs kind

end

/-! ## Size -/

mutual

/-- The number of bytes of a value on the wire. Neither a nested message nor an array adds bytes
of its own. -/
def size : Value n → Nat
  | .scalar v => v.size
  | .array items => sizeAll items
  | .message _ values => sizeAll values

/-- The number of bytes of a list of values. -/
def sizeAll : List (Value n) → Nat
  | [] => 0
  | v :: vs => size v + sizeAll vs

end

end Value

namespace Instance

variable (G : Catalog n)

/-- Compatible schemas and equal values. -/
def agrees (a b : Instance n) : Bool :=
  G.compatible a.schema b.schema && Value.agreesAll G a.values b.values

/-- The number of bytes of a message on the wire, its fingerprint included. -/
def size (m : Instance n) : Nat := 8 + Value.sizeAll m.values

/-- The value of the field called `name`. -/
def get? (m : Instance n) (name : String) : Option (Value n) :=
  (G m.schema).index? name |>.bind (m.values[·]?)

end Instance

end MessageWire
