import MessageWire.Proofs.Instance.Decode
import MessageWire.Proofs.Instance.Edit
import MessageWire.Value.Default
import MessageWire.Value.Path

/-!
# Messages with all their values

A message has one value for every field of its schema, and so has every message inside it, whatever
else may be wrong with it. It starts that way and stays that way.

* `Value.Full`, `Instance.Full`: such values and messages, `Instance.Full.complete`;
* **`Catalog.full_of_new`**, **`Instance.full_of_run_decode`**: where messages come from;
* `Instance.Full.set`, `Instance.Full.setSequence`, **`Instance.Full.update?`**: what becomes of
  them, with and without checks.
-/

namespace MessageWire

variable {n : Nat} {G : Catalog n}

namespace Value

mutual

/-- Every message in a value has one value for every field. -/
def Full (G : Catalog n) : Value n → Prop
  | .scalar _ => True
  | .array items => FullAll G items
  | .message s values => values.length = (G s).fields.length ∧ FullAll G values

/-- Every value of a list is full. -/
def FullAll (G : Catalog n) : List (Value n) → Prop
  | [] => True
  | v :: vs => Full G v ∧ FullAll G vs

end

theorem fullAll_iff {vs : List (Value n)} : FullAll G vs ↔ ∀ v ∈ vs, v.Full G := by
  induction vs with
  | nil => simp [FullAll]
  | cons v vs ih => rw [FullAll, ih, List.forall_mem_cons]

theorem FullAll.set {vs : List (Value n)} (h : FullAll G vs) {v : Value n} (hv : v.Full G)
    (i : Nat) : FullAll G (vs.set i v) := by
  rw [fullAll_iff] at h ⊢
  intro w hw
  rcases List.mem_or_eq_of_mem_set hw with hw | rfl
  · exact h w hw
  · exact hv

/-! ## Nodes -/

mutual

theorem Full.complete_of_mem {v : Value n} (h : v.Full G) (m : Instance n) (field : String)
    (kind : Kind n) : ∀ a ∈ v.nodes G m field kind, a.Complete G := by
  cases v with
  | scalar w => cases kind <;> simp [nodes, Node.Complete]
  | array items =>
    cases kind with
    | array element x =>
      rw [nodes, List.forall_mem_cons]
      exact ⟨trivial, FullAll.complete_of_mem h m field element⟩
    | _ => simp [nodes, Node.Complete]
  | message s values =>
    cases kind with
    | message t =>
      rw [nodes, List.forall_mem_cons]
      exact ⟨h.1, FullAll.complete_of_mem_fields h.2 ⟨s, values⟩ (G s).fields⟩
    | _ => simpa [nodes, Node.Complete] using h.1

theorem FullAll.complete_of_mem {vs : List (Value n)} (h : FullAll G vs) (m : Instance n)
    (field : String) (kind : Kind n) : ∀ a ∈ nodesAll G m field kind vs, a.Complete G := by
  cases vs with
  | nil => exact List.forall_mem_nil _
  | cons v vs =>
    rw [nodesAll, List.forall_mem_append]
    exact ⟨Full.complete_of_mem h.1 m field kind, FullAll.complete_of_mem h.2 m field kind⟩

theorem FullAll.complete_of_mem_fields {vs : List (Value n)} (h : FullAll G vs) (m : Instance n)
    (fs : List (Field n)) : ∀ a ∈ nodesFields G m fs vs, a.Complete G := by
  cases vs with
  | nil => cases fs <;> exact List.forall_mem_nil _
  | cons v vs =>
    cases fs with
    | nil => exact List.forall_mem_nil _
    | cons f fs =>
      rw [nodesFields, List.forall_mem_append]
      exact ⟨Full.complete_of_mem h.1 m f.name f.kind, FullAll.complete_of_mem_fields h.2 m fs⟩

end

mutual

/-- A sound and complete value is full: its nodes are all that it consists of. -/
theorem full_of_nodes {v : Value n} {m : Instance n} {field : String} {kind : Kind n}
    (h : ∀ a ∈ v.nodes G m field kind, a.Sound G ∧ a.Complete G) : v.Full G := by
  cases v with
  | scalar w => trivial
  | array items =>
    cases kind with
    | array element x =>
      rw [nodes, List.forall_mem_cons] at h
      exact fullAll_of_nodes h.2
    | _ => simp [nodes, Node.Sound] at h
  | message s values =>
    cases kind with
    | message t =>
      rw [nodes, List.forall_mem_cons] at h
      exact ⟨h.1.2, fullAll_of_nodesFields h.1.2 h.2⟩
    | _ => simp [nodes, Node.Sound] at h

theorem fullAll_of_nodes {vs : List (Value n)} {m : Instance n} {field : String} {kind : Kind n}
    (h : ∀ a ∈ nodesAll G m field kind vs, a.Sound G ∧ a.Complete G) : FullAll G vs := by
  cases vs with
  | nil => trivial
  | cons v vs =>
    rw [nodesAll, List.forall_mem_append] at h
    exact ⟨full_of_nodes h.1, fullAll_of_nodes h.2⟩

theorem fullAll_of_nodesFields {vs : List (Value n)} {m : Instance n} {fs : List (Field n)}
    (hl : vs.length = fs.length)
    (h : ∀ a ∈ nodesFields G m fs vs, a.Sound G ∧ a.Complete G) : FullAll G vs := by
  cases vs with
  | nil => trivial
  | cons v vs =>
    cases fs with
    | nil => cases hl
    | cons f fs =>
      rw [nodesFields, List.forall_mem_append] at h
      exact ⟨full_of_nodes h.1, fullAll_of_nodesFields (Nat.succ.inj hl) h.2⟩

end

end Value

open Value

/-! ## Where messages come from -/

/-- Every message inside has all its values, and so has the message itself. -/
def Instance.Full (G : Catalog n) (m : Instance n) : Prop := m.toValue.Full G

theorem Instance.Full.complete {m : Instance n} (h : m.Full G) : m.Complete G :=
  ⟨h.1, FullAll.complete_of_mem_fields h.2 m (G m.schema).fields⟩

/-- **What is decoded is full.** -/
theorem Instance.full_of_run_decode {s : Fin n} {limits : Limits} {bs : Bytes} {m : Instance n}
    {left : Source} (h : (decode G s).run (.memory bs) limits = (.ok m, left)) : m.Full G := by
  obtain ⟨⟨rfl, hw, -, ⟨hl, hc⟩, -⟩, -⟩ := run_decode_eq_ok_iff.mp h
  exact ⟨hl, fullAll_of_nodesFields hl fun a ha => ⟨hw a ha, hc a ha⟩⟩

/-- A list of computations that have all succeeded. -/
theorem forall_of_mapM_eq_ok {α β ε : Type} {f : α → Except ε β} {p : β → Prop} {as : List α}
    {bs : List β} (h : as.mapM f = .ok bs) (hp : ∀ a ∈ as, ∀ b, f a = .ok b → p b) :
    bs.length = as.length ∧ ∀ b ∈ bs, p b := by
  induction as generalizing bs with
  | nil =>
    cases h
    exact ⟨rfl, List.forall_mem_nil _⟩
  | cons a as ih =>
    rw [List.mapM_cons] at h
    obtain ⟨b, hb, h⟩ := exists_of_bind_eq_ok h
    obtain ⟨bs, hbs, h⟩ := exists_of_bind_eq_ok h
    cases h
    rw [List.forall_mem_cons] at hp ⊢
    obtain ⟨hl, hall⟩ := ih hbs hp.2
    exact ⟨congrArg Nat.succ hl, hp.1 b hb, hall⟩

theorem Kind.full_of_default {nested : Fin n → Except SchemaError (Value n)}
    (hn : ∀ t v, nested t = .ok v → v.Full G) {kind : Kind n} {v : Value n}
    (h : kind.default nested = .ok v) : v.Full G := by
  induction kind generalizing v with
  | primitive p =>
    cases h
    trivial
  | message t => exact hn t v h
  | array element x ih =>
    cases x with
    | fixed size =>
      rw [Kind.default] at h
      split_ifs at h with hz
      · cases h
        trivial
      · obtain ⟨w, hw, h⟩ := exists_of_bind_eq_ok h
        cases h
        refine fullAll_iff.mpr fun u hu => ?_
        rw [List.eq_of_mem_replicate hu]
        exact ih hw
    | counted c =>
      cases h
      trivial

namespace Catalog

theorem full_of_defaultBelow {path : List (Fin n)} {s : Fin n} {vs : List (Value n)}
    (h : G.defaultBelow path s = .ok vs) :
    vs.length = (G s).fields.length ∧ FullAll G vs := by
  -- nested messages are built on a longer path
  induction path, s using defaultBelow.induct generalizing vs with
  | case1 path s ih =>
    rw [defaultBelow] at h
    rw [fullAll_iff]
    refine forall_of_mapM_eq_ok h fun f _ v hv => Kind.full_of_default (fun t w hw => ?_) hv
    split_ifs at hw with ht
    obtain ⟨values, hvalues, hw⟩ := exists_of_bind_eq_ok hw
    cases hw
    exact ih t ht hvalues

/-- **A default message is full.** -/
theorem full_of_new {s : Fin n} {m : Instance n} (h : G.new s = .ok m) : m.Full G := by
  obtain ⟨vs, hvs, h⟩ := exists_of_bind_eq_ok h
  cases h
  exact full_of_defaultBelow hvs

end Catalog

/-! ## What becomes of messages -/

namespace Value

/-- One step into a value and back. -/
theorem Full.step? {v inner : Value n} {put : Value n → Value n} (h : v.Full G) {s : Step}
    (hs : v.step? G s = some (inner, put)) :
    inner.Full G ∧ ∀ w : Value n, w.Full G → (put w).Full G := by
  cases s with
  | field name =>
    cases v with
    | message t values =>
      obtain ⟨i, -, hs⟩ := Option.bind_eq_some_iff.mp hs
      obtain ⟨w, hw, hs⟩ := Option.bind_eq_some_iff.mp hs
      cases hs
      refine ⟨fullAll_iff.mp h.2 _ (List.mem_of_getElem? hw), fun w hw => ?_⟩
      exact ⟨(List.length_set ..).trans h.1, FullAll.set h.2 hw i⟩
    | _ => cases hs
  | item i =>
    cases v with
    | array items =>
      obtain ⟨w, hw, hs⟩ := Option.bind_eq_some_iff.mp hs
      cases hs
      exact ⟨fullAll_iff.mp h _ (List.mem_of_getElem? hw), fun w hw => FullAll.set h hw i⟩
    | _ => cases hs

/-- Along a path into a value and back. -/
theorem Full.focus? {v target : Value n} {put : Value n → Value n} (h : v.Full G)
    {path : List Step} (hp : v.focus? G path = some (target, put)) :
    target.Full G ∧ ∀ w : Value n, w.Full G → (put w).Full G := by
  induction path generalizing v put with
  | nil =>
    cases hp
    exact ⟨h, fun w hw => hw⟩
  | cons s path ih =>
    obtain ⟨⟨inner, put₁⟩, hs, hp⟩ := Option.bind_eq_some_iff.mp hp
    obtain ⟨⟨w, put₂⟩, hw, hp⟩ := Option.bind_eq_some_iff.mp hp
    cases hp
    obtain ⟨hinner, hput₁⟩ := h.step? hs
    obtain ⟨htarget, hput₂⟩ := ih hinner hw
    exact ⟨htarget, fun w hw => hput₁ _ (hput₂ w hw)⟩

end Value

namespace Instance

/-- A field replaced. -/
theorem Full.set_values {m : Instance n} (h : m.Full G) {v : Value n} (hv : v.Full G) (i : Nat) :
    Full G { m with values := m.values.set i v } :=
  ⟨(List.length_set ..).trans h.1, FullAll.set h.2 hv i⟩

theorem Full.set {m m' : Instance n} (h : m.Full G) {name : String} {v : Value n} (hv : v.Full G)
    (hs : m.set G name v = .ok m') : m'.Full G := by
  obtain ⟨i, kind, -, -, rfl⟩ := set_eq_ok_iff.mp hs
  exact h.set_values hv i

theorem Full.setSequence {m m' : Instance n} (h : m.Full G) {name : String}
    {items : List (Value n)} (hi : FullAll G items)
    (hs : m.setSequence G name items = .ok m') : m'.Full G := by
  obtain ⟨m₁, hm, h'⟩ := setSequence_eq_ok hs
  have hfull := h.set (v := .array items) hi hm
  obtain rfl | ⟨-, j, -, count, -, -, rfl⟩ := h'
  · exact hfull
  · exact hfull.set_values (v := .scalar count) trivial j

/-- **A change without checks** keeps a message full if it does so for the value that it is made
to. -/
theorem Full.update? {m m' : Instance n} (h : m.Full G) {path : List Step}
    {f : Value n → Option (Value n)} (hf : ∀ v w : Value n, v.Full G → f v = some w → w.Full G)
    (hu : m.update? G path f = some m') : m'.Full G := by
  obtain ⟨⟨target, put⟩, hp, hu⟩ := Option.bind_eq_some_iff.mp hu
  obtain ⟨w, hw, hu⟩ := Option.bind_eq_some_iff.mp hu
  obtain ⟨htarget, hput⟩ := Value.Full.focus? h hp
  have hm := hput w (hf target w htarget hw)
  cases hv : put w with
  | message t values =>
    rw [hv] at hm hu
    cases hu
    exact hm
  | _ =>
    rw [hv] at hu
    cases hu

end Instance

end MessageWire
