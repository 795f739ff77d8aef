import Mathlib.Logic.Relation
import MessageWire.Schema.Basic

/-!
# Messages by value

A field may hold messages of a schema in such a way that there is no message without one inside.

* `Kind.Holds`: every value of a kind holds a message of a schema;
* `Catalog.Embeds`, `Catalog.Grounded`: references by value, and schemas from which none lead in a
  circle, `Catalog.grounded_of_acc`.
-/

namespace MessageWire

variable {n : Nat}

/-- **A kind by value:** messages of `t`, or an array of them whose dimensions are all fixed and not
empty. -/
def Kind.Holds (kind : Kind n) (t : Fin n) : Prop :=
  kind.leaf = .message t ∧ ∀ x ∈ kind.extents, ∃ size, x = .fixed size ∧ size ≠ 0

namespace Kind

variable {t : Fin n}

@[simp] theorem not_holds_primitive (p : Primitive) : ¬ (primitive p).Holds t := by
  simp [Holds, leaf]

@[simp] theorem holds_message_iff {u : Fin n} : (message u).Holds t ↔ u = t := by
  simp [Holds, leaf, extents]

@[simp] theorem holds_fixed_iff {element : Kind n} {size : UInt64} :
    (array element (.fixed size)).Holds t ↔ size ≠ 0 ∧ element.Holds t := by
  simp [Holds, leaf, extents, and_left_comm]

@[simp] theorem not_holds_counted (element : Kind n) (c : String) :
    ¬ (array element (.counted c)).Holds t := by
  simp [Holds, extents]

end Kind

namespace Catalog

variable (G : Catalog n)

/-- A field of `s` holds messages of `t` by value. -/
def Embeds (s t : Fin n) : Prop := ∃ f ∈ (G s).fields, f.kind.Holds t

/-- **No circle by value:** none of the schemas to which references by value lead from `s` embeds
itself. -/
def Grounded (s : Fin n) : Prop :=
  ∀ t, Relation.ReflTransGen G.Embeds s t → ¬ Relation.TransGen G.Embeds t t

variable {G}

/-- Where references by value cannot go on for ever, they do not lead in a circle. -/
theorem grounded_of_acc {s : Fin n} (h : Acc (fun t s => G.Embeds s t) s) : G.Grounded s := by
  have hcircle {t : Fin n} (ht : Acc (Relation.TransGen fun t s => G.Embeds s t) t) :
      ¬ Relation.TransGen G.Embeds t t := by
    induction ht with
    | intro t _ ih => exact fun hc => ih t (Relation.transGen_swap.mpr hc) hc
  intro t hst
  have ht : Acc (fun t s => G.Embeds s t) t := by
    induction hst with
    | refl => exact h
    | tail _ hut ih => exact ih.inv hut
  exact hcircle ht.transGen

end Catalog

end MessageWire
