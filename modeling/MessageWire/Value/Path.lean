import MessageWire.Value.Basic

/-!
# Paths into messages

A path goes from a message to one of its fields, from there into nested messages by the names of
their fields and into arrays by the places of their elements.

* `Step`: one step of a path;
* `Value.focus?`: the value at the end of a path, and the whole with another value in its place;
* `Instance.at?`, `Instance.update?`: reading and replacing without any check.
-/

namespace MessageWire

variable {n : Nat}

/-- One step into a value. -/
inductive Step
  | field (name : String)
  | item (place : Nat)
  deriving DecidableEq, Repr

namespace Value

/-- The value one step inside another, and how to put a new value in its place. -/
def step? (G : Catalog n) : Step → Value n → Option (Value n × (Value n → Value n))
  | .field name, .message s values => do
    let i ← (G s).index? name
    return (← values[i]?, fun v => .message s (values.set i v))
  | .item i, .array items => return (← items[i]?, fun v => .array (items.set i v))
  | _, _ => none

/-- The value at the end of a path, and how to put a new value in its place. -/
def focus? (G : Catalog n) : List Step → Value n → Option (Value n × (Value n → Value n))
  | [], v => some (v, id)
  | s :: path, v => do
    let (inner, put) ← v.step? G s
    let (target, putInner) ← focus? G path inner
    return (target, put ∘ putInner)

end Value

namespace Instance

variable (G : Catalog n) (m : Instance n) (path : List Step)

/-- The value at the end of a path. -/
def at? : Option (Value n) := (m.toValue.focus? G path).map (·.1)

/-- The message with the value at the end of a path replaced by what `f` makes of it. -/
def update? (f : Value n → Option (Value n)) : Option (Instance n) := do
  let (target, put) ← m.toValue.focus? G path
  (put (← f target)).instance?

end Instance

end MessageWire
