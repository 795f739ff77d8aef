import MessageWire.Value.Basic

/-!
# Copies

A copy is built anew from its leaves: arrays element by element, nested messages field by field,
each bound to the schema of the original.

* `Value.copy`, `Instance.copy`: copies;
* `Value.copy_eq`, `Instance.copy_eq`: values never change, so a copy is the value itself.
-/

namespace MessageWire

variable {n : Nat}

namespace Value

mutual

/-- A copy of a value. -/
def copy : Value n → Value n
  | .scalar v => .scalar v
  | .array items => .array (copyAll items)
  | .message s values => .message s (copyAll values)

/-- Copies of a list of values. -/
def copyAll : List (Value n) → List (Value n)
  | [] => []
  | v :: vs => copy v :: copyAll vs

end

mutual

theorem copy_eq (v : Value n) : v.copy = v := by
  cases v with
  | scalar v => rfl
  | array items => rw [copy, copyAll_eq items]
  | message s values => rw [copy, copyAll_eq values]

theorem copyAll_eq (vs : List (Value n)) : copyAll vs = vs := by
  cases vs with
  | nil => rfl
  | cons v vs => rw [copyAll, copy_eq v, copyAll_eq vs]

end

end Value

namespace Instance

/-- A copy of a message. -/
def copy (m : Instance n) : Instance n := ⟨m.schema, Value.copyAll m.values⟩

theorem copy_eq (m : Instance n) : m.copy = m := by rw [copy, Value.copyAll_eq]

end Instance

end MessageWire
