import Mathlib.Data.List.Forall2
import MessageWire.Proofs.Schema.Graph

/-!
# Fingerprints and the shape of the graph

Two schemas have the same fingerprint when they look the same from where the hash starts: the same
base seeds along the same references, and a way back at the same places. Which objects the schemas
are, and whether equal ones are one object or several, does not matter.

* `Catalog.InStep`: two hashes that go through their graphs in step, `Catalog.InStep.hashFrom_eq`;
* `Catalog.Carries`, `Catalog.Matches`: a map from one graph to another, and a relation between two,
  that respect seeds and references;
* `Catalog.Carries.fingerprint_eq`, `Catalog.Matches.fingerprint_eq`: such graphs hash in step;
* **`Catalog.fingerprint_eq_of_shape`**: maps, isomorphic graphs, and shared schemas.
-/

namespace MessageWire.Catalog

variable {n k : Nat} {G : Catalog n} {H : Catalog k}

/-! ## Two hashes in step -/

variable (G H) in
/-- **Two hashes in step:** they meet schemas with the same base seed, go on to as many nested
schemas in the same order, and are on their own path at the same time. -/
structure InStep (Q : List (Fin n) → Fin n → List (Fin k) → Fin k → Prop) : Prop where
  mem {path u path' v} : Q path u path' v → (u ∈ path ↔ v ∈ path')
  seed {path u path' v} : Q path u path' v → (G u).baseSeed = (H v).baseSeed
  nested {path u path' v} : Q path u path' v → u ∉ path →
    List.Forall₂ (fun a b => Q (u :: path) a (v :: path') b) (G.nested u) (H.nested v)

theorem InStep.hashFrom_eq {Q : List (Fin n) → Fin n → List (Fin k) → Fin k → Prop}
    (hQ : InStep G H Q) {path : List (Fin n)} {u : Fin n} {path' : List (Fin k)} {v : Fin k}
    (h : Q path u path' v) : G.hashFrom path u = H.hashFrom path' v := by
  induction path, u using hashFrom.induct generalizing path' v with
  | case1 path u hu =>
    rw [hashFrom, hashFrom, if_pos hu, if_pos ((hQ.mem h).mp hu)]
  | case2 path u hu ih =>
    rw [hashFrom, hashFrom, if_neg hu, if_neg fun hv => hu ((hQ.mem h).mpr hv)]
    refine congrArg rotate ?_
    refine List.rel_foldl (P := Eq) (R := fun a b => Q (u :: path) a (v :: path') b) ?_ (hQ.seed h)
      (hQ.nested h hu)
    rintro sum - rfl a b hab
    exact congrArg (sum + ·) (ih a hab)

/-! ## Maps -/

variable (G H) in
/-- **A map between graphs:** on all that `s` reaches it keeps base seeds, and the schemas that the
fields refer to, in order. -/
structure Carries (s : Fin n) (h : Fin n → Fin k) : Prop where
  seed : ∀ u, G.Reaches s u → (H (h u)).baseSeed = (G u).baseSeed
  nested : ∀ u, G.Reaches s u → H.nested (h u) = (G.nested u).map h

/-- Under a map that tells the schemas on one route apart, the hash comes back to its path where it
did before. -/
theorem Carries.fingerprint_eq {s : Fin n} {h : Fin n → Fin k} (hh : Carries G H s h)
    (hinj : ∀ path u, G.Route s path u → ∀ a ∈ u :: path, ∀ b ∈ u :: path, h a = h b → a = b) :
    G.fingerprint s = H.fingerprint (h s) := by
  have hQ : InStep G H fun path u path' v => G.Route s path u ∧ path' = path.map h ∧ v = h u := by
    constructor
    · rintro path u _ _ ⟨hr, rfl, rfl⟩
      constructor
      · exact List.mem_map_of_mem
      · intro hu
        obtain ⟨t, ht, e⟩ := List.mem_map.mp hu
        have : t = u := hinj path u hr t (List.mem_cons_of_mem _ ht) u List.mem_cons_self e
        exact this ▸ ht
    · rintro path u _ _ ⟨hr, rfl, rfl⟩
      exact (hh.seed u hr.reaches).symm
    · rintro path u _ _ ⟨hr, rfl, rfl⟩ hu
      rw [hh.nested u hr.reaches, List.forall₂_map_right_iff, List.forall₂_same]
      exact fun t ht => ⟨.step hr hu ht, rfl, rfl⟩
  exact congrArg Fingerprint.mk (hQ.hashFrom_eq ⟨.start, rfl, rfl⟩)

/-! ## Shared schemas -/

variable (G H) in
/-- **Schemas that look alike,** in one graph and in another: the same base seeds, and as many
nested schemas that look alike in turn. -/
def Matches (R : Fin n → Fin k → Prop) : Prop :=
  ∀ u v, R u v → (G u).baseSeed = (H v).baseSeed ∧ List.Forall₂ R (G.nested u) (H.nested v)

/-- Where nothing leads back, the hash never comes back to its path. -/
theorem Matches.fingerprint_eq {R : Fin n → Fin k → Prop} (hR : Matches G H R) {s : Fin n}
    {t : Fin k} (hst : R s t) (hs : G.Acyclic s) (ht : H.Acyclic t) :
    G.fingerprint s = H.fingerprint t := by
  have hQ : InStep G H fun path u path' v => R u v ∧ G.Route s path u ∧ H.Route t path' v := by
    have hnew {m : Nat} {F : Catalog m} {r u : Fin m} {path : List (Fin m)} (hr : F.Acyclic r)
        (hu : F.Route r path u) : u ∉ path := fun hm => hr u hu.reaches (hu.transGen u hm)
    constructor
    · rintro path u path' v ⟨-, hu, hv⟩
      exact iff_of_false (hnew hs hu) (hnew ht hv)
    · rintro path u path' v ⟨huv, -, -⟩
      exact (hR u v huv).1
    · rintro path u path' v ⟨huv, hu, hv⟩ hup
      obtain ⟨hl, hz⟩ := List.forall₂_iff_zip.mp (hR u v huv).2
      refine List.forall₂_iff_zip.mpr ⟨hl, fun hab => ⟨hz hab, ?_, ?_⟩⟩
      · exact .step hu hup (List.of_mem_zip hab).1
      · exact .step hv (hnew ht hv) (List.of_mem_zip hab).2
  exact congrArg Fingerprint.mk (hQ.hashFrom_eq ⟨hst, .start, .start⟩)

/-! ## Shapes -/

/-- **Fingerprints depend on the shape of the graph only.** They are kept by a map that respects base
seeds and references and tells the schemas on one route apart, so also by one that tells all schemas
apart; and where nothing leads back, by sharing equal schemas or taking several for one. -/
theorem fingerprint_eq_of_shape (G : Catalog n) (H : Catalog k) (s : Fin n) :
    (∀ h : Fin n → Fin k, Carries G H s h →
      (∀ path u, G.Route s path u → ∀ a ∈ u :: path, ∀ b ∈ u :: path, h a = h b → a = b) →
        G.fingerprint s = H.fingerprint (h s)) ∧
    (∀ h : Fin n → Fin k, Carries G H s h →
      (∀ a b, G.Reaches s a → G.Reaches s b → h a = h b → a = b) →
        G.fingerprint s = H.fingerprint (h s)) ∧
    ∀ (R : Fin n → Fin k → Prop) (t : Fin k), Matches G H R → R s t → G.Acyclic s → H.Acyclic t →
      G.fingerprint s = H.fingerprint t := by
  refine ⟨fun h hh hinj => hh.fingerprint_eq hinj, fun h hh hinj => hh.fingerprint_eq ?_,
    fun R t hR hst hs ht => hR.fingerprint_eq hst hs ht⟩
  intro path u hr a ha b hb
  exact hinj a b (hr.reaches_of_mem a ha) (hr.reaches_of_mem b hb)

/-- A schema that refers to `a` and to `b`. -/
def pair (a b : Fin n) : Schema n :=
  ⟨"Pair", [⟨"left", .message a⟩, ⟨"right", .array (.message b) (.fixed 2)⟩], 5, [], by decide,
    by simp [Declared, Kind.extents, Extent.Resolved]⟩

/-- A schema that refers to none. -/
def leaf : Schema n := ⟨"Leaf", [], 7, [], by decide, trivial⟩

/-- A schema that refers to two objects. -/
def apart (inner : Schema 3) : Catalog 3
  | 0 => pair 1 2
  | _ => inner

/-- A schema that refers to one object twice. -/
def together (inner : Schema 2) : Catalog 2
  | 0 => pair 1 1
  | 1 => inner

/-- The map that makes the two objects one. -/
def fold : Fin 3 → Fin 2
  | 0 => 0
  | _ => 1

/-- The routes from a schema to either of two objects, and from there back to its start. -/
def returns : List (List (Fin 3) × Fin 3) := [([], 0), ([0], 1), ([0], 2), ([1, 0], 0), ([2, 0], 0)]

theorem Route.mem_returns {path : List (Fin 3)} {u : Fin 3}
    (hr : (apart (pair 0 0)).Route 0 path u) : (path, u) ∈ returns := by
  have hstep : ∀ r ∈ returns, r.2 ∉ r.1 → ∀ t ∈ (apart (pair 0 0)).nested r.2,
      (r.2 :: r.1, t) ∈ returns := by decide
  induction hr with
  | start => exact List.mem_cons_self
  | step _ hu ht ih => exact hstep _ ih hu _ ht

/-- Two objects, or one in place of both, whether they refer back or to none. -/
theorem fingerprint_apart :
    (apart (pair 0 0)).fingerprint 0 = (together (pair 0 0)).fingerprint 0 ∧
      (apart leaf).fingerprint 0 = (together leaf).fingerprint 0 := by
  have hseed : ∀ u, (together (pair 0 0) (fold u)).baseSeed = (apart (pair 0 0) u).baseSeed := by
    decide
  have hnested : ∀ u, (together (pair 0 0)).nested (fold u) =
      ((apart (pair 0 0)).nested u).map fold := by decide
  have hinj : ∀ r ∈ returns, ∀ a ∈ r.2 :: r.1, ∀ b ∈ r.2 :: r.1, fold a = fold b → a = b := by
    decide
  have hmatch : Matches (apart leaf) (together leaf) fun u v => v = fold u := by
    unfold Matches
    decide
  exact ⟨(fingerprint_eq_of_shape _ _ 0).1 fold ⟨fun u _ => hseed u, fun u _ => hnested u⟩
      fun path u hr => hinj _ hr.mem_returns,
    (fingerprint_eq_of_shape _ _ 0).2.2 _ 0 hmatch rfl (acyclic_of_lt (by decide) 0)
      (acyclic_of_lt (by decide) 0)⟩

end MessageWire.Catalog
