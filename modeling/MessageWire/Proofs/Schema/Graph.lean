import Mathlib.Logic.Relation
import MessageWire.Fingerprint

/-!
# The graph of the schemas

A schema refers to the schemas of its nested messages, whether by themselves or in arrays.

* `Catalog.Refers`, `Catalog.Reaches`, `Catalog.Acyclic`: references, chains of references, and
  schemas from which no chain leads back to where it has been;
* `Catalog.Route`: a chain of distinct schemas with one reference more.
-/

namespace MessageWire.Catalog

variable {n : Nat} (G : Catalog n)

/-- A field of `s` holds messages of `t`. -/
def Refers (s t : Fin n) : Prop := t ∈ G.nested s

/-- A chain of references leads from `s` to `t`. -/
def Reaches (s t : Fin n) : Prop := Relation.ReflTransGen G.Refers s t

/-- No chain of references that starts at `s` comes back to a schema that it has met. -/
def Acyclic (s : Fin n) : Prop := ∀ t, G.Reaches s t → ¬ Relation.TransGen G.Refers t t

/-- **A route** from `s` to a schema, with the schemas in front of it, the last one first. They are
distinct; the schema at the end may be one of them. -/
inductive Route (s : Fin n) : List (Fin n) → Fin n → Prop
  | start : Route s [] s
  | step {path : List (Fin n)} {u t : Fin n} :
      Route s path u → u ∉ path → G.Refers u t → Route s (u :: path) t

variable {G}

/-- Chains of references that only lead to later schemas. -/
theorem lt_of_transGen (h : ∀ s, ∀ t ∈ G.nested s, s < t) {s t : Fin n}
    (hst : Relation.TransGen G.Refers s t) : s < t := by
  induction hst with
  | single ht => exact h s _ ht
  | tail _ ht ih => exact Nat.lt_trans ih (h _ _ ht)

theorem le_of_reaches (h : ∀ s, ∀ t ∈ G.nested s, s < t) {s t : Fin n} (hst : G.Reaches s t) :
    s ≤ t := by
  rcases Relation.reflTransGen_iff_eq_or_transGen.mp hst with rfl | hst
  · exact Nat.le_refl _
  · exact Nat.le_of_lt (lt_of_transGen h hst)

/-- References that only lead to later schemas never come back. -/
theorem acyclic_of_lt (h : ∀ s, ∀ t ∈ G.nested s, s < t) (s : Fin n) : G.Acyclic s :=
  fun t _ hc => Nat.lt_irrefl t (lt_of_transGen h hc)

/-- What is on a route leads to its end. -/
theorem Route.transGen {s u : Fin n} {path : List (Fin n)} (h : G.Route s path u) :
    ∀ t ∈ path, Relation.TransGen G.Refers t u := by
  induction h with
  | start => exact List.forall_mem_nil _
  | step hr hu ht ih =>
    rw [List.forall_mem_cons]
    exact ⟨.single ht, fun t hm => (ih t hm).tail ht⟩

/-- What is on a route is reached from its start. -/
theorem Route.reaches_of_mem {s u : Fin n} {path : List (Fin n)} (h : G.Route s path u) :
    ∀ t ∈ u :: path, G.Reaches s t := by
  induction h with
  | start =>
    intro t ht
    rw [List.mem_singleton.mp ht]
    exact .refl
  | step hr hu ht ih =>
    rw [List.forall_mem_cons]
    exact ⟨(ih _ List.mem_cons_self).tail ht, ih⟩

theorem Route.reaches {s u : Fin n} {path : List (Fin n)} (h : G.Route s path u) :
    G.Reaches s u := h.reaches_of_mem u List.mem_cons_self

end MessageWire.Catalog
