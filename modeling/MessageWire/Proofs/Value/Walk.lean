import MessageWire.Proofs.Schema.Walk
import MessageWire.Value.Default

/-!
# Walks to default values

The default of a message is built through the messages that it holds by value. As a walk it builds
every element of a fixed array by itself.

* `DefaultWalk.Finishes`: walks that may find that there is no default, `Finishes.bind`,
  `Finishes.mapM`;
* `Kind.defaultWalk`, `Catalog.messageWalk`: the default of a kind and of a message,
  **`Catalog.finishes_messageWalk`**;
* **`Catalog.traversals_terminate`**: hashes, default messages and default values.
-/

namespace MessageWire

variable {n : Nat}

/-- A walk that may find that there is no default. -/
abbrev DefaultWalk (n : Nat) := ExceptT SchemaError (Walk n)

namespace DefaultWalk

variable {α β : Type} {P : List (Fin n) → Prop}

/-- **The walk comes to a default,** or finds that there is none, and every path that it builds on
its way satisfies `P`. -/
def Finishes (P : List (Fin n) → Prop) (walk : DefaultWalk n α) (r : Except SchemaError α) : Prop :=
  Walk.Finishes P walk.run r

namespace Finishes

theorem pure (a : α) : Finishes P (Pure.pure a) (.ok a) := Walk.Finishes.pure _

theorem throw (e : SchemaError) : Finishes P (MonadExcept.throw e : DefaultWalk n α) (.error e) :=
  Walk.Finishes.pure _

theorem note {path : List (Fin n)} (h : P path) :
    Finishes P (Walk.note path : DefaultWalk n Unit) (.ok ()) :=
  fun _ => ⟨[path], rfl, List.forall_mem_singleton.mpr h⟩

/-- **One walk after another,** if there is a default so far. -/
theorem bind {walk : DefaultWalk n α} {next : α → DefaultWalk n β} {r : Except SchemaError α}
    {value : α → Except SchemaError β} (h : Finishes P walk r)
    (hn : ∀ a, Finishes P (next a) (value a)) : Finishes P (walk >>= next) (r >>= value) := by
  cases r with
  | ok a => exact Walk.Finishes.bind h (hn a)
  | error e => exact Walk.Finishes.bind h (.pure _)

theorem map {walk : DefaultWalk n α} {r : Except SchemaError α} (h : Finishes P walk r)
    (f : α → β) : Finishes P (do return f (← walk)) (do return f (← r)) :=
  h.bind fun a => pure (f a)

/-- A walk for every element of a list. -/
theorem mapM {γ : Type} {walk : γ → DefaultWalk n α} {value : γ → Except SchemaError α}
    {cs : List γ} (h : ∀ c ∈ cs, Finishes P (walk c) (value c)) :
    Finishes P (cs.mapM walk) (cs.mapM value) := by
  induction cs with
  | nil => exact pure []
  | cons c cs ih =>
    rw [List.forall_mem_cons] at h
    rw [List.mapM_cons, List.mapM_cons]
    exact h.1.bind fun a => (ih h.2).map (a :: ·)

end Finishes

end DefaultWalk

/-- Asking for the same several times is asking once, if at all. -/
theorem mapM_replicate {α : Type} (k : Nat) (r : Except SchemaError α) :
    (List.replicate k ()).mapM (fun _ => r) =
      if k = 0 then .ok [] else do return List.replicate k (← r) := by
  cases r with
  | error e => cases k <;> rfl
  | ok a =>
    have hall : (List.replicate k ()).mapM (fun _ => (.ok a : Except SchemaError α)) =
        .ok (List.replicate k a) := by
      induction k with
      | zero => rfl
      | succ k ih =>
        rw [List.replicate_succ, List.mapM_cons, ih]
        rfl
    rw [hall]
    split_ifs with hk
    · rw [hk, List.replicate_zero]
    · rfl

namespace Kind

/-- The default of a kind, element by element. -/
def defaultWalk (nested : Fin n → DefaultWalk n (Value n)) : Kind n → DefaultWalk n (Value n)
  | .primitive p => return .scalar (.zero p)
  | .message t => nested t
  | .array element (.fixed size) => do
    return .array (← (List.replicate size.toNat ()).mapM fun _ => element.defaultWalk nested)
  | .array _ (.counted _) => return .array []

theorem finishes_defaultWalk {P : List (Fin n) → Prop} {nested : Fin n → DefaultWalk n (Value n)}
    {value : Fin n → Except SchemaError (Value n)} (kind : Kind n)
    (h : ∀ t, kind.nested? = some t → (nested t).Finishes P (value t)) :
    (kind.defaultWalk nested).Finishes P (kind.default value) := by
  induction kind with
  | primitive p => exact .pure _
  | message t => exact h t rfl
  | array element x ih =>
    cases x with
    | counted c => exact .pure _
    | fixed size =>
      have hitems : DefaultWalk.Finishes P
          ((List.replicate size.toNat ()).mapM fun _ => element.defaultWalk nested) _ :=
        .mapM fun _ _ => ih h
      have hsize : size.toNat = 0 ↔ size = 0 := UInt64.toNat_inj (b := 0)
      rw [mapM_replicate] at hitems
      rw [default, defaultWalk]
      simp only [← hsize]
      convert hitems.map Value.array using 1
      split_ifs
      · rfl
      · cases element.default value <;> rfl

end Kind

namespace Catalog

variable (G : Catalog n)

/-- The default of a message of `t` that is reached through the schemas of `path`, below which
`room` more may be open at once. -/
def messageWalk : (room : Nat) → (path : List (Fin n)) → (t : Fin n) → DefaultWalk n (Value n)
  | 0, path, t =>
    if t ∈ path then throw (.recursiveDefault (G t).name) else (failure : Walk n _)
  | room + 1, path, t =>
    if t ∈ path then throw (.recursiveDefault (G t).name)
    else do
      Walk.note (t :: path)
      let values ← (G t).fields.mapM fun f => f.kind.defaultWalk (messageWalk room (t :: path))
      return .message t values

theorem messageWalk_zero (path : List (Fin n)) (t : Fin n) :
    G.messageWalk 0 path t =
      (if t ∈ path then throw (.recursiveDefault (G t).name) else (failure : Walk n _) :
        DefaultWalk n (Value n)) := rfl

theorem messageWalk_succ (room : Nat) (path : List (Fin n)) (t : Fin n) :
    G.messageWalk (room + 1) path t =
      if t ∈ path then throw (.recursiveDefault (G t).name)
      else do
        Walk.note (t :: path)
        let values ← (G t).fields.mapM fun f => f.kind.defaultWalk (G.messageWalk room (t :: path))
        return .message t values := rfl

variable {G} {S : Set (Fin n)}

/-- **The default of a message ends,** with no more schemas open than there are in a set that
references do not leave. -/
theorem finishes_messageWalk (hS : G.Closed S) {room : Nat} {path : List (Fin n)} {t : Fin n}
    (hpath : Confined S path) (ht : t ∈ S) (hroom : S.ncard ≤ room + path.length) :
    (G.messageWalk room path t).Finishes (Confined S)
      (if t ∈ path then .error (.recursiveDefault (G t).name)
        else do return .message t (← G.defaultBelow (t :: path) t)) := by
  induction room generalizing path t with
  | zero =>
    rw [messageWalk_zero]
    by_cases hm : t ∈ path
    · rw [if_pos hm, if_pos hm]
      exact .throw _
    · -- the path would hold more schemas than there are
      have := (hpath.cons hm ht).length_le
      rw [List.length_cons] at this
      omega
  | succ room ih =>
    rw [messageWalk_succ]
    by_cases hm : t ∈ path
    · rw [if_pos hm, if_pos hm]
      exact .throw _
    · rw [if_neg hm, if_neg hm, defaultBelow]
      have hnext := hpath.cons hm ht
      have hfield (f : Field n) (hf : f ∈ (G t).fields) :=
        f.kind.finishes_defaultWalk fun u hu =>
          ih hnext (hS t ht u (List.mem_filterMap.mpr ⟨f, hf, hu⟩))
            (by rw [List.length_cons]; omega)
      exact (DefaultWalk.Finishes.note hnext).bind fun _ =>
        (DefaultWalk.Finishes.mapM hfield).map (Value.message t)

/-- From the outermost message the path starts empty. -/
theorem finishes_messageWalk_nil (hS : G.Closed S) {t : Fin n} (ht : t ∈ S) :
    (G.messageWalk S.ncard [] t).Finishes (fun path => Confined S path ∧ path.length ≤ S.ncard)
      (do return .message t (← G.defaultBelow [t] t)) := by
  have h := finishes_messageWalk hS Confined.nil ht (Nat.le_add_right S.ncard 0)
  rw [if_neg List.not_mem_nil] at h
  exact h.mono fun path => Confined.and_length_le

/-- **The hash of a schema, its default message and the default value of a kind all end,** whatever
refers to what. Opening at most as many schemas at once as can be reached from where it starts, each
traversal comes to its answer, and all the paths that it builds are of distinct schemas reached from
there. -/
theorem traversals_terminate (G : Catalog n) :
    (∀ s, let S := {t | G.Reaches s t}
      (G.hashWalk S.ncard [] s).Finishes (fun path => Confined S path ∧ path.length ≤ S.ncard)
          (G.fingerprint s).value ∧
        (G.messageWalk S.ncard [] s).Finishes
          (fun path => Confined S path ∧ path.length ≤ S.ncard)
          ((G.new s).map Instance.toValue)) ∧
      ∀ kind : Kind n, let S := {t | ∃ s, kind.nested? = some s ∧ G.Reaches s t}
        (kind.defaultWalk (G.messageWalk S.ncard [])).Finishes
          (fun path => Confined S path ∧ path.length ≤ S.ncard) (G.defaultFor kind) := by
  refine ⟨fun s => ⟨?_, ?_⟩, fun kind => ?_⟩
  · have h := finishes_hashWalk (G.closed_reaches s) Confined.nil .refl (Nat.le_add_right _ 0)
    exact h.mono fun path => Confined.and_length_le
  · have h := finishes_messageWalk_nil (G.closed_reaches s) .refl
    have hnew : ((G.new s).map Instance.toValue) =
        (do return .message s (← G.defaultBelow [s] s)) := by
      rw [new]
      cases G.defaultBelow [s] s <;> rfl
    rw [hnew]
    exact h
  · have hclosed : G.Closed {t | ∃ s, kind.nested? = some s ∧ G.Reaches s t} := by
      rintro u ⟨s, hs, hu⟩ t ht
      exact ⟨s, hs, hu.tail ht⟩
    exact kind.finishes_defaultWalk fun s hs =>
      finishes_messageWalk_nil hclosed ⟨s, hs, .refl⟩

end Catalog

end MessageWire
