import Mathlib.Data.List.Perm.Basic
import MessageWire.Proofs.Schema.Shape

/-!
# Fingerprints and the order of references

The hashes of nested schemas are summed, and the types of nested messages are not part of a base
seed. So a fingerprint tells which schemas a schema refers to, but not from which fields.

* `Catalog.hashFrom_append`: what is in front of a path does not matter if no reference leads there;
* `Catalog.hashFrom_nil`: a hash by the hashes of the nested schemas;
* **`Catalog.fingerprint_eq_of_perm`**: references in another order.
-/

namespace MessageWire.Catalog

variable {n : Nat} {G : Catalog n}

/-- **What is in front of a path does not matter** if the hash does not come back to it. -/
theorem hashFrom_append {path front : List (Fin n)} {t : Fin n}
    (h : ∀ a ∈ front, ¬ G.Reaches t a) : G.hashFrom (path ++ front) t = G.hashFrom path t := by
  have hQ : InStep G G fun path u path' v => G.Reaches t u ∧ path = path' ++ front ∧ u = v := by
    constructor
    · rintro _ u path' _ ⟨hr, rfl, rfl⟩
      rw [List.mem_append, or_iff_left fun hu => h u hu hr]
    · rintro _ u path' _ ⟨hr, rfl, rfl⟩
      rfl
    · rintro _ u path' _ ⟨hr, rfl, rfl⟩ -
      exact List.forall₂_same.mpr fun v hv => ⟨hr.tail hv, rfl, rfl⟩
  exact hQ.hashFrom_eq ⟨.refl, rfl, rfl⟩

/-- The fingerprints below a schema that nothing leads back to are added up. -/
theorem hashFrom_nil {s : Fin n} (hs : ∀ t ∈ G.nested s, ¬ G.Reaches t s) : G.hashFrom [] s =
    rotate ((G.nested s).foldl (fun sum t => sum + G.hashFrom [] t) (G s).baseSeed) := by
  rw [hashFrom, if_neg List.not_mem_nil]
  refine congrArg rotate (List.foldl_ext _ _ _ fun sum t ht => ?_)
  have hfront : ∀ u ∈ [s], ¬ G.Reaches t u := by
    rintro u hu
    rw [List.mem_singleton.mp hu]
    exact hs t ht
  have htail : G.hashFrom ([] ++ [s]) t = G.hashFrom [] t := hashFrom_append hfront
  exact congrArg (sum + ·) htail

/-- **References in another order** leave the fingerprint as it is: schemas with the same base seed
have the same fingerprint if they refer to the same schemas, none of which leads back to them, from
whatever fields. -/
theorem fingerprint_eq_of_perm {a b : Fin n} (hseed : (G a).baseSeed = (G b).baseSeed)
    (hnested : (G.nested a).Perm (G.nested b))
    (ha : ∀ t ∈ G.nested a, ¬ G.Reaches t a) (hb : ∀ t ∈ G.nested b, ¬ G.Reaches t b) :
    G.fingerprint a = G.fingerprint b := by
  have hcomm : RightCommutative fun (sum : UInt64) t => sum + G.hashFrom [] t :=
    ⟨fun sum t u => by rw [UInt64.add_assoc, UInt64.add_comm (G.hashFrom [] t), UInt64.add_assoc]⟩
  rw [fingerprint, fingerprint, hashFrom_nil ha, hashFrom_nil hb, hseed, hnested.foldl_eq]

end MessageWire.Catalog
