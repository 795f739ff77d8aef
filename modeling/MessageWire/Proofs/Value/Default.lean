import MessageWire.Proofs.Instance.Complete
import MessageWire.Proofs.Schema.ByValue

/-!
# Why there is no default

The default of a message asks for the defaults of the messages that it holds by value, on a path of
schemas that must be distinct. It fails only where the path comes back to itself.

* `eq_error_or_of_bind_eq_error`, `exists_of_mapM_eq_error`, `forall₂_of_mapM_eq_ok`: computations
  that may fail, `exists_getElem?_of_forall₂`;
* `Kind.exists_of_default_eq_error`: a kind fails for a message that it holds;
* **`Catalog.exists_of_new_eq_error`**: a schema fails for a circle.
-/

namespace MessageWire

open Relation (ReflTransGen TransGen)

variable {n : Nat} {G : Catalog n}

section Lists

variable {α β ε : Type} {f : α → Except ε β}

theorem eq_error_or_of_bind_eq_error {x : Except ε α} {e : ε} (h : (x >>= f) = .error e) :
    x = .error e ∨ ∃ a, x = .ok a ∧ f a = .error e := by
  cases x with
  | error e' =>
    cases h
    exact Or.inl rfl
  | ok a => exact Or.inr ⟨a, rfl, h⟩

/-- A list of computations fails with the failure of one of them. -/
theorem exists_of_mapM_eq_error {as : List α} {e : ε} (h : as.mapM f = .error e) :
    ∃ a ∈ as, f a = .error e := by
  induction as with
  | nil => cases h
  | cons a as ih =>
    rw [List.mapM_cons] at h
    obtain ha | ⟨b, -, h⟩ := eq_error_or_of_bind_eq_error h
    · exact ⟨a, List.mem_cons_self, ha⟩
    · obtain has | ⟨bs, -, h⟩ := eq_error_or_of_bind_eq_error h
      · obtain ⟨a', hm, hf⟩ := ih has
        exact ⟨a', List.mem_cons_of_mem _ hm, hf⟩
      · cases h

/-- A list of computations that have all succeeded, one by one. -/
theorem forall₂_of_mapM_eq_ok {as : List α} {bs : List β} (h : as.mapM f = .ok bs) :
    List.Forall₂ (fun a b => f a = .ok b) as bs := by
  induction as generalizing bs with
  | nil =>
    cases h
    exact .nil
  | cons a as ih =>
    rw [List.mapM_cons] at h
    obtain ⟨b, hb, h⟩ := exists_of_bind_eq_ok h
    obtain ⟨bs, hbs, h⟩ := exists_of_bind_eq_ok h
    cases h
    exact .cons hb (ih hbs)

/-- What stands at the same place in a related list. -/
theorem exists_getElem?_of_forall₂ {R : α → β → Prop} {as : List α} {bs : List β}
    (h : List.Forall₂ R as bs) {i : Nat} {a : α} (ha : as[i]? = some a) :
    ∃ b, bs[i]? = some b ∧ R a b := by
  induction h generalizing i with
  | nil => cases ha
  | cons hab _ ih =>
    cases i with
    | zero =>
      cases ha
      exact ⟨_, rfl, hab⟩
    | succ i => exact ih ha

end Lists

/-- A kind has no default when a message that it holds has none. -/
theorem Kind.exists_of_default_eq_error {nested : Fin n → Except SchemaError (Value n)}
    {kind : Kind n} {e : SchemaError} (h : kind.default nested = .error e) :
    ∃ t, kind.Holds t ∧ nested t = .error e := by
  induction kind with
  | primitive p => cases h
  | message t => exact ⟨t, holds_message_iff.mpr rfl, h⟩
  | array element x ih =>
    cases x with
    | fixed size =>
      rw [Kind.default] at h
      split_ifs at h with hz
      obtain he | ⟨v, -, h⟩ := eq_error_or_of_bind_eq_error h
      · obtain ⟨t, ht, hn⟩ := ih he
        exact ⟨t, holds_fixed_iff.mpr ⟨hz, ht⟩, hn⟩
      · cases h
    | counted c => cases h

namespace Catalog

/-- A failure on a path of schemas by value: going on, a schema is met that embeds itself. -/
theorem exists_of_defaultBelow_eq_error {path : List (Fin n)} {s : Fin n} {e : SchemaError}
    (h : G.defaultBelow path s = .error e) (hp : ∀ p ∈ path, ReflTransGen G.Embeds p s) :
    ∃ t, ReflTransGen G.Embeds s t ∧ TransGen G.Embeds t t ∧
      e = .recursiveDefault (G t).name := by
  induction path, s using defaultBelow.induct with
  | case1 path s ih =>
    rw [defaultBelow] at h
    obtain ⟨f, hf, h⟩ := exists_of_mapM_eq_error h
    obtain ⟨t, ht, h⟩ := Kind.exists_of_default_eq_error h
    have hst : G.Embeds s t := ⟨f, hf, ht⟩
    split_ifs at h with hm
    · -- the path has come back to `t`, from which it went on to `s`
      cases h
      exact ⟨t, .single hst, .tail' (hp t hm) hst, rfl⟩
    · have hpath : ∀ p ∈ t :: path, ReflTransGen G.Embeds p t := by
        rw [List.forall_mem_cons]
        exact ⟨.refl, fun p hm => (hp p hm).tail hst⟩
      obtain hb | ⟨vs, -, h⟩ := eq_error_or_of_bind_eq_error h
      · obtain ⟨u, htu, hu, he⟩ := ih t hm hb hpath
        exact ⟨u, .head hst htu, hu, he⟩
      · cases h

/-- **A schema has no default only for a circle,** and the failure names a schema on it. -/
theorem exists_of_new_eq_error {s : Fin n} {e : SchemaError} (h : G.new s = .error e) :
    ∃ t, ReflTransGen G.Embeds s t ∧ TransGen G.Embeds t t ∧
      e = .recursiveDefault (G t).name := by
  obtain hb | ⟨vs, -, h⟩ := eq_error_or_of_bind_eq_error h
  · refine exists_of_defaultBelow_eq_error hb fun p hp => ?_
    rw [List.mem_singleton.mp hp]
  · cases h

end Catalog

end MessageWire
