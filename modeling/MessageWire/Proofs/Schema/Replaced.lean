import MessageWire.Proofs.Schema.Order

/-!
# Fingerprints and a single reference

A fingerprint is a sum that is turned by one bit. No summand can be changed without changing the
sum, and turning loses nothing. So where nothing leads back, one nested schema that is replaced, at
whatever depth, shows in the fingerprint exactly if it shows in its own.

* `Catalog.rotate_injective`, `Catalog.foldl_add_inj`: turning and adding;
* `Catalog.SameTree`: schemas that look the same all the way down, `SameTree.hashFrom_eq`;
* `Catalog.Beside`, `Catalog.OneApart`: nesting trees that differ in one reference, next to the top
  and at any depth, `Beside.hashFrom_eq_iff`, **`OneApart.fingerprint_eq_iff`**.
-/

namespace MessageWire.Catalog

variable {n k : Nat} {G : Catalog n} {H : Catalog k}

/-! ## Turning and adding -/

theorem rotate_injective : Function.Injective rotate := by
  intro v w h
  have hturn : v.toBitVec.rotateLeft 1 = w.toBitVec.rotateLeft 1 := congrArg UInt64.toBitVec h
  apply UInt64.toBitVec_inj.mp
  apply BitVec.eq_of_getLsbD_eq
  intro i hi
  have bit := congrArg (·.getLsbD ((i + 1) % 64)) hturn
  simp only [BitVec.getLsbD_rotateLeft] at bit
  by_cases htop : i = 63
  · subst htop
    simpa using bit
  · rw [Nat.mod_eq_of_lt (by omega)] at bit
    simpa [show i + 1 < 64 by omega] using bit

/-- **Equal summands are cancelled,** one after the other. -/
theorem foldl_add_inj {α β : Type} {f : α → UInt64} {g : β → UInt64} {as : List α} {bs : List β}
    (h : List.Forall₂ (fun a b => f a = g b) as bs) {x y : UInt64} :
    as.foldl (fun sum a => sum + f a) x = bs.foldl (fun sum b => sum + g b) y ↔ x = y := by
  induction h generalizing x y with
  | nil => rfl
  | cons hab _ ih => rw [List.foldl_cons, List.foldl_cons, ih, hab, UInt64.add_left_inj]

/-! ## Acyclic schemas -/

theorem Acyclic.of_nested {s t : Fin n} (hs : G.Acyclic s) (ht : t ∈ G.nested s) : G.Acyclic t :=
  fun u htu => hs u (.head ht htu)

/-- No nested schema leads back. -/
theorem Acyclic.not_reaches {s : Fin n} (hs : G.Acyclic s) : ∀ t ∈ G.nested s, ¬ G.Reaches t s :=
  fun _ ht hts => hs s .refl (.head' ht hts)

/-! ## Nesting trees -/

variable (G H) in
/-- **The same nesting tree** below two schemas: they have the same base seed and, in order, as many
nested schemas, of which the same holds in turn. -/
def SameTree (u : Fin n) (v : Fin k) : Prop := ∃ R, Matches G H R ∧ R u v

variable (G H) in
/-- **One reference apart:** schemas with the same base seed whose nested schemas have, in order, the
same nesting trees, but for a reference to `u` in the first, in place of which the second has one to
`v`. -/
def Beside (u : Fin n) (v : Fin k) (s : Fin n) (t : Fin k) : Prop :=
  (G s).baseSeed = (H t).baseSeed ∧ ∃ front back front' back',
    G.nested s = front ++ u :: back ∧ H.nested t = front' ++ v :: back' ∧
      List.Forall₂ (SameTree G H) front front' ∧ List.Forall₂ (SameTree G H) back back'

variable (G H) in
/-- **One reference apart at any depth:** the nesting trees below two schemas are the same but for
one place, where the first refers to `a` and the second to `b`. -/
inductive OneApart (a : Fin n) (b : Fin k) : Fin n → Fin k → Prop
  | here {s : Fin n} {t : Fin k} : Beside G H a b s t → OneApart a b s t
  | inside {s u : Fin n} {t v : Fin k} : Beside G H u v s t → OneApart a b u v → OneApart a b s t

theorem SameTree.hashFrom_eq {u : Fin n} {v : Fin k} (h : SameTree G H u v) (hu : G.Acyclic u)
    (hv : H.Acyclic v) : G.hashFrom [] u = H.hashFrom [] v := by
  obtain ⟨R, hR, huv⟩ := h
  exact congrArg Fingerprint.value (hR.fingerprint_eq huv hu hv)

theorem SameTree.forall₂_hashFrom_eq {us : List (Fin n)} {vs : List (Fin k)}
    (h : List.Forall₂ (SameTree G H) us vs) (hus : ∀ u ∈ us, G.Acyclic u)
    (hvs : ∀ v ∈ vs, H.Acyclic v) :
    List.Forall₂ (fun u v => G.hashFrom [] u = H.hashFrom [] v) us vs := by
  induction h with
  | nil => exact .nil
  | cons huv _ ih =>
    rw [List.forall_mem_cons] at hus hvs
    exact .cons (huv.hashFrom_eq hus.1 hvs.1) (ih hus.2 hvs.2)

/-- **Next to the top:** the summands that are the same cancel. -/
theorem Beside.hashFrom_eq_iff {s u : Fin n} {t v : Fin k} (h : Beside G H u v s t)
    (hs : G.Acyclic s) (ht : H.Acyclic t) :
    G.hashFrom [] s = H.hashFrom [] t ↔ G.hashFrom [] u = H.hashFrom [] v := by
  obtain ⟨hseed, front, back, front', back', hns, hnt, hfront, hback⟩ := h
  have hsub : ∀ x ∈ front ++ u :: back, G.Acyclic x := fun x hx => hs.of_nested (hns ▸ hx)
  have hsub' : ∀ x ∈ front' ++ v :: back', H.Acyclic x := fun x hx => ht.of_nested (hnt ▸ hx)
  rw [List.forall_mem_append, List.forall_mem_cons] at hsub hsub'
  have hfront := SameTree.forall₂_hashFrom_eq hfront hsub.1 hsub'.1
  have hback := SameTree.forall₂_hashFrom_eq hback hsub.2.2 hsub'.2.2
  rw [hashFrom_nil hs.not_reaches, hashFrom_nil ht.not_reaches, rotate_injective.eq_iff, hns, hnt,
    List.foldl_append, List.foldl_append, List.foldl_cons, List.foldl_cons, foldl_add_inj hback,
    (foldl_add_inj hfront).mpr hseed, UInt64.add_right_inj]

theorem Beside.acyclic {s u : Fin n} {t v : Fin k} (h : Beside G H u v s t) (hs : G.Acyclic s)
    (ht : H.Acyclic t) : G.Acyclic u ∧ H.Acyclic v := by
  obtain ⟨-, front, back, front', back', hns, hnt, -, -⟩ := h
  exact ⟨hs.of_nested (by simp [hns]), ht.of_nested (by simp [hnt])⟩

/-- **At any depth** the fingerprints are equal exactly if those of the two schemas at the one place
are. -/
theorem OneApart.fingerprint_eq_iff {s a : Fin n} {t b : Fin k} (h : OneApart G H a b s t)
    (hs : G.Acyclic s) (ht : H.Acyclic t) :
    G.fingerprint s = H.fingerprint t ↔ G.fingerprint a = H.fingerprint b := by
  simp only [fingerprint, Fingerprint.mk.injEq]
  induction h with
  | here h => exact h.hashFrom_eq_iff hs ht
  | inside h _ ih =>
    obtain ⟨hu, hv⟩ := h.acyclic hs ht
    exact (h.hashFrom_eq_iff hs ht).trans (ih hu hv)

end MessageWire.Catalog
