import Mathlib.Data.Set.Card
import MessageWire.Proofs.Schema.Graph

/-!
# Walks through the graph

A traversal of the schemas is taken again in a form that notes every path it builds and is given
only so many schemas to open at once. It is a recursion on that number, so it ends; that the number
is enough says that the traversal ends by itself, and how deep it goes.

* `Walk`, `Walk.Finishes`: such a form, and its answer with what it has built, `Finishes.bind`,
  `Finishes.foldlM`;
* `Confined`: paths of distinct schemas of a set, **`Confined.length_le`**;
* `Catalog.Closed`: sets of schemas that references do not leave;
* `Catalog.hashWalk`, **`Catalog.finishes_hashWalk`**: the hash.
-/

namespace MessageWire

variable {n : Nat}

/-- A traversal that notes the paths it builds. It has no answer when it would have to open more
schemas than it may. -/
abbrev Walk (n : Nat) := StateT (List (List (Fin n))) Option

namespace Walk

variable {α β : Type} {P : List (Fin n) → Prop}

/-- Notes a path. -/
def note (path : List (Fin n)) : Walk n Unit := modify (· ++ [path])

/-- **The walk comes to an answer,** and every path that it builds on its way satisfies `P`. -/
def Finishes (P : List (Fin n) → Prop) (walk : Walk n α) (a : α) : Prop :=
  ∀ noted, ∃ paths, walk noted = some (a, noted ++ paths) ∧ ∀ path ∈ paths, P path

namespace Finishes

theorem mono {Q : List (Fin n) → Prop} {walk : Walk n α} {a : α} (h : Finishes P walk a)
    (hPQ : ∀ path, P path → Q path) : Finishes Q walk a := by
  intro noted
  obtain ⟨paths, he, hp⟩ := h noted
  exact ⟨paths, he, fun path hm => hPQ path (hp path hm)⟩

theorem pure (a : α) : Finishes P (Pure.pure a) a := by
  intro noted
  refine ⟨[], ?_, List.forall_mem_nil _⟩
  rw [List.append_nil]
  rfl

theorem note {path : List (Fin n)} (h : P path) : Finishes P (Walk.note path) () :=
  fun _ => ⟨[path], rfl, List.forall_mem_singleton.mpr h⟩

/-- **One walk after another.** -/
theorem bind {walk : Walk n α} {next : α → Walk n β} {a : α} {b : β} (h : Finishes P walk a)
    (hn : Finishes P (next a) b) : Finishes P (walk >>= next) b := by
  intro noted
  obtain ⟨paths, he, hp⟩ := h noted
  obtain ⟨paths', he', hp'⟩ := hn (noted ++ paths)
  refine ⟨paths ++ paths', ?_, List.forall_mem_append.mpr ⟨hp, hp'⟩⟩
  rw [← List.append_assoc, ← he']
  change (walk noted >>= fun p => next p.1 p.2) = _
  rw [he]
  rfl

/-- A sum over a list, each summand being a walk. -/
theorem foldlM {γ : Type} {walk : γ → Walk n β} {value : γ → β} (f : α → β → α) {cs : List γ}
    (h : ∀ c ∈ cs, Finishes P (walk c) (value c)) (a : α) :
    Finishes P (cs.foldlM (fun a c => do return f a (← walk c)) a)
      (cs.foldl (fun a c => f a (value c)) a) := by
  induction cs generalizing a with
  | nil => exact pure a
  | cons c cs ih =>
    rw [List.forall_mem_cons] at h
    have hstep : Finishes P (do return f a (← walk c)) (f a (value c)) := h.1.bind (pure _)
    rw [List.foldlM_cons, List.foldl_cons]
    exact hstep.bind (ih h.2 _)

end Finishes

end Walk

/-! ## Paths in a set -/

/-- **A path of distinct schemas** of a set. -/
def Confined (S : Set (Fin n)) (path : List (Fin n)) : Prop := path.Nodup ∧ ∀ t ∈ path, t ∈ S

namespace Confined

variable {S : Set (Fin n)} {path : List (Fin n)}

/-- There are not more of them than schemas in the set. -/
theorem length_le (h : Confined S path) : path.length ≤ S.ncard := by
  rw [← List.toFinset_card_of_nodup h.1, ← Set.ncard_coe_finset]
  exact Set.ncard_le_ncard (fun t ht => h.2 t (List.mem_toFinset.mp ht)) S.toFinite

theorem and_length_le (h : Confined S path) : Confined S path ∧ path.length ≤ S.ncard :=
  ⟨h, h.length_le⟩

theorem nil : Confined S [] := ⟨List.nodup_nil, List.forall_mem_nil _⟩

theorem cons {t : Fin n} (h : Confined S path) (hnew : t ∉ path) (ht : t ∈ S) :
    Confined S (t :: path) := ⟨h.1.cons hnew, List.forall_mem_cons.mpr ⟨ht, h.2⟩⟩

end Confined

namespace Catalog

variable (G : Catalog n)

/-- No reference leads out of the set. -/
def Closed (S : Set (Fin n)) : Prop := ∀ s ∈ S, ∀ t ∈ G.nested s, t ∈ S

theorem closed_reaches (s : Fin n) : G.Closed {t | G.Reaches s t} := fun _ hu _ ht => hu.tail ht

/-! ## The hash -/

/-- The hash of `s` when it is reached through the schemas of `path`, below which `room` more may be
open at once. -/
def hashWalk : (room : Nat) → (path : List (Fin n)) → (s : Fin n) → Walk n UInt64
  | 0, path, s => if s ∈ path then return 0 else failure
  | room + 1, path, s =>
    if s ∈ path then return 0
    else do
      Walk.note (s :: path)
      let sum ← (G.nested s).foldlM (fun sum t => do return sum + (← hashWalk room (s :: path) t))
        (G s).baseSeed
      return rotate sum

theorem hashWalk_zero (path : List (Fin n)) (s : Fin n) :
    G.hashWalk 0 path s = if s ∈ path then return 0 else failure := rfl

theorem hashWalk_succ (room : Nat) (path : List (Fin n)) (s : Fin n) :
    G.hashWalk (room + 1) path s =
      if s ∈ path then return 0
      else do
        Walk.note (s :: path)
        let sum ← (G.nested s).foldlM
          (fun sum t => do return sum + (← G.hashWalk room (s :: path) t)) (G s).baseSeed
        return rotate sum := rfl

variable {G} {S : Set (Fin n)}

/-- **The hash ends,** with no more schemas open than there are in a set that references do not
leave. -/
theorem finishes_hashWalk (hS : G.Closed S) {room : Nat} {path : List (Fin n)} {s : Fin n}
    (hpath : Confined S path) (hs : s ∈ S) (hroom : S.ncard ≤ room + path.length) :
    (G.hashWalk room path s).Finishes (Confined S) (G.hashFrom path s) := by
  induction room generalizing path s with
  | zero =>
    rw [hashWalk_zero, hashFrom]
    by_cases hm : s ∈ path
    · rw [if_pos hm, if_pos hm]
      exact .pure 0
    · -- the path would hold more schemas than there are
      have := (hpath.cons hm hs).length_le
      rw [List.length_cons] at this
      omega
  | succ room ih =>
    rw [hashWalk_succ, hashFrom]
    by_cases hm : s ∈ path
    · rw [if_pos hm, if_pos hm]
      exact .pure 0
    · rw [if_neg hm, if_neg hm]
      have hnext := hpath.cons hm hs
      have hbelow (t : Fin n) (ht : t ∈ G.nested s) :=
        ih hnext (hS s hs t ht) (by rw [List.length_cons]; omega)
      exact (Walk.Finishes.note hnext).bind
        ((Walk.Finishes.foldlM (· + ·) hbelow _).bind (.pure _))

end Catalog

end MessageWire
