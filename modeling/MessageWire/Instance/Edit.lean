import MessageWire.Value.FieldType
import MessageWire.Wire.Error

/-!
# Editing messages

An edit works on a message in place: what it has put there stays there if it fails later on.

* `Change`: an action on a message;
* `Change.set`: replaces a field by a value of its kind;
* `Change.setSequence`: replaces an array and the field that counts it;
* `Instance.set`, `Instance.setSequence`: the messages that come out;
* `Instance.getAs`: a field as a value of a given type.
-/

namespace MessageWire

variable {n : Nat}

namespace Instance

variable (G : Catalog n) (m : Instance n)

/-- The value of `field` does not have the shape of `kind`. -/
def mismatch (field : String) (kind : Kind n) : WireError :=
  .typeMismatch field (G.kindText kind)

/-- The place and the kind of the field called `name`. -/
def field (name : String) : Except WireError (Nat × Kind n) :=
  match (G m.schema).index? name with
  | none => .error (.unknownField name)
  | some i => match (G m.schema).fields[i]? with
    | none => .error (.unknownField name)
    | some f => .ok (i, f.kind)

end Instance

/-- An action that changes a message, or fails and leaves the message as far as it had got. -/
abbrev Change (n : Nat) := EStateM WireError (Instance n)

namespace Change

/-- The message that an action makes of `m`, if it does not fail. -/
def outcome (act : Change n Unit) (m : Instance n) : Except WireError (Instance n) :=
  match act m with
  | .ok () m' => .ok m'
  | .error err _ => .error err

variable (G : Catalog n)

/-- The place and the kind of the field called `name`. -/
def field (name : String) : Change n (Nat × Kind n) := fun m =>
  match m.field G name with
  | .ok found => .ok found m
  | .error err => .error err m

/-- Puts a value in a place, without a check. -/
def put (i : Nat) (v : Value n) : Change n Unit :=
  modify fun m => { m with values := m.values.set i v }

/-- Replaces a field by a value that conforms to its kind. -/
def set (name : String) (v : Value n) : Change n Unit := do
  let (i, kind) ← field G name
  if !v.conforms G kind then throw (Instance.mismatch G name kind)
  put i v

/-- Replaces an array, and then the field that counts its outermost dimension. -/
def setSequence (name : String) (items : List (Value n)) : Change n Unit := do
  let (_, kind) ← field G name
  match kind with
  | .array _ (.fixed size) =>
    if items.length ≠ size.toNat then throw (.lengthMismatch name size.toNat items.length)
    set G name (.array items)
  | .array _ (.counted c) =>
    let (j, countKind) ← field G c
    let .primitive p := countKind | throw (Instance.mismatch G c countKind)
    let some count := Scalar.ofCount? p items.length
      | throw (.invalidLength .array items.length 0)
    set G name (.array items)
    put j (.scalar count)
  | kind => throw (Instance.mismatch G name kind)

end Change

namespace Instance

variable (G : Catalog n) (m : Instance n)

/-- A field replaced by a value that conforms to its kind. -/
def set (name : String) (v : Value n) : Except WireError (Instance n) :=
  (Change.set G name v).outcome m

/-- An array replaced, and the field that counts its outermost dimension with it. -/
def setSequence (name : String) (items : List (Value n)) : Except WireError (Instance n) :=
  (Change.setSequence G name items).outcome m

/-- The field called `name` as a value of type `α`. -/
def getAs (α : Type) [FieldType α] (name : String) : Except WireError α :=
  match m.get? G name with
  | none => .error (.unknownField name)
  | some v => match FieldType.ofValue? v with
    | none => .error (.typeMismatch name (FieldType.name α))
    | some a => .ok a

end Instance

end MessageWire
