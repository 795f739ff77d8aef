import MessageWire.Proofs.Instance.Default
import MessageWire.Proofs.Instance.Delivery
import MessageWire.Proofs.Instance.Edit
import MessageWire.Value.Copy

/-!
# The shape of messages that have been made

A message is made by default construction or by a decoder, and changed by edits that check what they
are given. So every field holds what its kind asks for, and in every message inside as well. The
check of a message by itself does not look inside: what is inside has been made before.

* `Value.instances`, `Instance.instances`: a message and all messages inside it;
* `Instance.Fits`, `Instance.Shaped`: one value that conforms for every field, everywhere;
* `Value.shaped_of_decodable`, `Instance.Shaped.apply`: where that comes from, and that it stays;
* `Edit`, `Edit.change_eq`, `Made`: edits, and the messages that can be made;
* **`Made.shaped`**: what has been made is shaped.
-/

namespace MessageWire

variable {n : Nat}

/-! ## Messages in a value -/

namespace Value

mutual

/-- All messages in a value, each in front of those inside it. -/
def instances : Value n → List (Instance n)
  | .scalar _ => []
  | .array items => instancesAll items
  | .message s values => ⟨s, values⟩ :: instancesAll values

/-- All messages in a list of values. -/
def instancesAll : List (Value n) → List (Instance n)
  | [] => []
  | v :: vs => instances v ++ instancesAll vs

end

mutual

/-- The messages in a value that are not inside others. -/
def messages : Value n → List (Instance n)
  | .scalar _ => []
  | .array items => messagesAll items
  | .message s values => [⟨s, values⟩]

/-- The outermost messages of a list of values. -/
def messagesAll : List (Value n) → List (Instance n)
  | [] => []
  | v :: vs => messages v ++ messagesAll vs

end

end Value

namespace Instance

/-- A message and all messages inside it. -/
def instances (m : Instance n) : List (Instance n) := m :: Value.instancesAll m.values

/-- One value for every field, which conforms to its kind. -/
def Fits (G : Catalog n) (m : Instance n) : Prop :=
  List.Forall₂ (fun f v => v.conforms G f.kind = true) (G m.schema).fields m.values

/-- **A shaped message:** the message and every one inside it fit their schemas. -/
def Shaped (G : Catalog n) (m : Instance n) : Prop := ∀ u ∈ m.instances, u.Fits G

end Instance

/-- Every message in a value fits its schema. -/
def Value.Shaped (G : Catalog n) (v : Value n) : Prop := ∀ u ∈ v.instances, u.Fits G

variable {G : Catalog n}

namespace Value

theorem instancesAll_eq_flatMap (vs : List (Value n)) : instancesAll vs = vs.flatMap instances := by
  induction vs with
  | nil => rfl
  | cons v vs ih => rw [instancesAll, ih, List.flatMap_cons]

theorem shaped_scalar (v : Scalar) : (scalar v).Shaped G := List.forall_mem_nil _

theorem shaped_array_iff {items : List (Value n)} :
    (array items).Shaped G ↔ ∀ v ∈ items, v.Shaped G := by
  rw [Shaped, instances, instancesAll_eq_flatMap, List.forall_mem_flatMap]
  rfl

end Value

theorem Instance.shaped_iff {m : Instance n} :
    m.Shaped G ↔ m.Fits G ∧ ∀ v ∈ m.values, v.Shaped G := by
  rw [Shaped, instances, List.forall_mem_cons, Value.instancesAll_eq_flatMap,
    List.forall_mem_flatMap]
  rfl

theorem Value.shaped_message_iff {s : Fin n} {values : List (Value n)} :
    (message s values).Shaped G ↔ Instance.Shaped G ⟨s, values⟩ := Iff.rfl

mutual

/-- A value is shaped if its outermost messages are. -/
theorem Value.shaped_of_messages {v : Value n} (h : ∀ u ∈ v.messages, u.Shaped G) :
    v.Shaped G := by
  cases v with
  | scalar v => exact shaped_scalar v
  | array items => exact shaped_array_iff.mpr (shapedAll_of_messages h)
  | message s values => exact h _ List.mem_cons_self

theorem Value.shapedAll_of_messages {vs : List (Value n)}
    (h : ∀ u ∈ messagesAll vs, u.Shaped G) : ∀ v ∈ vs, v.Shaped G := by
  cases vs with
  | nil => exact List.forall_mem_nil _
  | cons v vs =>
    rw [messagesAll, List.forall_mem_append] at h
    rw [List.forall_mem_cons]
    exact ⟨shaped_of_messages h.1, shapedAll_of_messages h.2⟩

end

/-! ## Where messages come from -/

theorem Value.conformsAll_iff {vs : List (Value n)} {kind : Kind n} :
    conformsAll G vs kind = true ↔ ∀ v ∈ vs, v.conforms G kind = true := by
  induction vs with
  | nil => simp [conformsAll]
  | cons v vs ih => rw [conformsAll, Bool.and_eq_true, ih, List.forall_mem_cons]

theorem Value.conforms_array_iff {items : List (Value n)} {element : Kind n} {x : Extent} :
    (array items).conforms G (.array element x) = true ↔
      (∀ size, x = .fixed size → items.length = size.toNat) ∧
        ∀ v ∈ items, v.conforms G element = true := by
  cases x with
  | fixed size =>
    rw [conforms, Bool.and_eq_true, beq_iff_eq, conformsAll_iff]
    exact and_congr_left fun _ => ⟨fun h _ e => Extent.fixed.inj e ▸ h, fun h => h size rfl⟩
  | counted c =>
    rw [conforms, conformsAll_iff]
    exact (and_iff_right nofun).symm

/-- What can be decoded conforms to its kind, and all inside it is shaped if nested messages are. -/
theorem Value.shaped_of_decodable {m : Instance n} {field : String} {kind : Kind n}
    {limits : Limits} {room : Nat}
    (hn : ∀ t values, values.length = (G t).fields.length →
      (∀ a ∈ Instance.nodes G ⟨t, values⟩, a.Readable G limits) → nestingAll values < room →
        Instance.Shaped G ⟨t, values⟩) {v : Value n}
    (h : v.Decodable G m field kind limits room) : v.conforms G kind = true ∧ v.Shaped G := by
  induction kind generalizing v with
  | primitive p =>
    obtain ⟨w, ⟨hk, -⟩, rfl⟩ := decodable_primitive_iff.mp h
    exact ⟨beq_iff_eq.mpr hk, shaped_scalar w⟩
  | message t =>
    obtain ⟨values, ⟨hl, ha, hr⟩, rfl⟩ := decodable_message_iff.mp h
    exact ⟨G.compatible_refl t, hn t values hl ha hr⟩
  | array element x ih =>
    obtain ⟨items, ⟨⟨hc, -⟩, hi⟩, rfl⟩ := decodable_array_iff.mp h
    rw [conforms_array_iff, shaped_array_iff]
    refine ⟨⟨?_, fun w hw => (ih (hi w hw)).1⟩, fun w hw => (ih (hi w hw)).2⟩
    rintro size rfl
    exact hc

namespace Instance

/-- **A message that can be decoded is shaped.** -/
theorem shaped_of_readable {limits : Limits} {s : Fin n} {values : List (Value n)}
    (hl : values.length = (G s).fields.length)
    (ha : ∀ a ∈ nodes G ⟨s, values⟩, a.Readable G limits) : Shaped G ⟨s, values⟩ := by
  -- messages inside have fewer levels
  induction hr : Value.nestingAll values using Nat.strong_induction_on generalizing s values with
  | _ room ih =>
    have hall (p : Field n × Value n) (hp : p ∈ (G s).fields.zip values) :=
      Value.shaped_of_decodable (fun t vs hlen hread hnest => ih _ hnest hlen hread rfl)
        ((forall_decodable_iff hl).mpr ⟨ha, hr.le⟩ p hp)
    rw [shaped_iff]
    refine ⟨List.forall₂_iff_zip.mpr ⟨hl.symm, fun hp => (hall _ hp).1⟩, fun v hv => ?_⟩
    obtain ⟨f, hf⟩ := exists_field_of_mem hl hv
    exact (hall _ hf).2

/-- What is decoded, from any source, is shaped. -/
theorem shaped_of_run_decode {s : Fin n} {limits : Limits} {source left : Source} {m : Instance n}
    (h : (decode G s).run source limits = (.ok m, left)) : m.Shaped G := by
  obtain ⟨bs, left', h⟩ := exists_memory_of_run_decode h
  obtain ⟨⟨rfl, hm⟩, -⟩ := run_decode_eq_ok_iff.mp h
  obtain ⟨hl, ha, -⟩ := forall_readable_iff.mpr hm
  exact shaped_of_readable hl ha

end Instance

/-- A default message is shaped. -/
theorem Catalog.shaped_of_new {s : Fin n} {m : Instance n} (h : G.new s = .ok m) :
    m.Shaped G := by
  obtain ⟨values, hvalues, h⟩ := exists_of_bind_eq_ok h
  cases h
  obtain ⟨hl, ha, -⟩ := readable_of_defaultBelow .unlimited hvalues
  exact Instance.shaped_of_readable hl ha

/-! ## Edits -/

theorem forall₂_set {α β : Type} {R : α → β → Prop} {as : List α} {bs : List β}
    (h : List.Forall₂ R as bs) {i : Nat} {a : α} (ha : as[i]? = some a) {b : β} (hb : R a b) :
    List.Forall₂ R as (bs.set i b) := by
  induction h generalizing i with
  | nil => cases ha
  | cons h hs ih =>
    cases i with
    | zero =>
      cases ha
      exact .cons hb hs
    | succ i => exact .cons h (ih ha)

namespace Instance

variable {m m' : Instance n} {name : String}

/-- A field replaced. -/
theorem Shaped.set_values (h : m.Shaped G) {i : Nat} {kind : Kind n}
    (hf : m.field G name = .ok (i, kind)) {v : Value n} (hc : v.conforms G kind = true)
    (hv : v.Shaped G) : Shaped G { m with values := m.values.set i v } := by
  obtain ⟨f, -, hi, rfl⟩ := field_eq_ok_iff.mp hf
  rw [shaped_iff] at h ⊢
  refine ⟨forall₂_set h.1 hi hc, fun w hw => ?_⟩
  rcases List.mem_or_eq_of_mem_set hw with hw | rfl
  · exact h.2 w hw
  · exact hv

theorem Shaped.set (h : m.Shaped G) {v : Value n} (hv : v.Shaped G)
    (hs : m.set G name v = .ok m') : m'.Shaped G := by
  obtain ⟨i, kind, hf, hc, rfl⟩ := set_eq_ok_iff.mp hs
  exact h.set_values hf hc hv

/-- The count is not checked against the kind of its field, but made for it. -/
theorem Shaped.setSequence (h : m.Shaped G) {items : List (Value n)}
    (hi : ∀ v ∈ items, v.Shaped G) (hs : m.setSequence G name items = .ok m') : m'.Shaped G := by
  obtain ⟨m₁, hm, h'⟩ := setSequence_eq_ok hs
  have hshaped := h.set (Value.shaped_array_iff.mpr hi) hm
  obtain rfl | ⟨c, j, p, count, hj, hk, rfl⟩ := h'
  · exact hshaped
  · obtain ⟨i, kind, -, -, rfl⟩ := set_eq_ok_iff.mp hm
    have hc : (Value.scalar count).conforms G (.primitive p) = true :=
      beq_iff_eq.mpr (Scalar.kind_of_ofCount? hk)
    exact hshaped.set_values hj hc (Value.shaped_scalar count)

end Instance

/-- A change of a message that is checked. -/
inductive Edit (n : Nat)
  | set (name : String) (v : Value n)
  | setSequence (name : String) (items : List (Value n))

namespace Edit

/-- What an edit makes of a message, if it is not refused. -/
def apply (G : Catalog n) (m : Instance n) : Edit n → Except WireError (Instance n)
  | set name v => m.set G name v
  | setSequence name items => m.setSequence G name items

/-- The action of an edit. -/
def change (G : Catalog n) : Edit n → Change n Unit
  | set name v => Change.set G name v
  | setSequence name items => Change.setSequence G name items

theorem apply_eq (m : Instance n) (e : Edit n) : e.apply G m = (e.change G).outcome m := by
  cases e <;> rfl

/-- The messages that an edit puts into another. -/
def messages : Edit n → List (Instance n)
  | set _ v => v.messages
  | setSequence _ items => Value.messagesAll items

end Edit

/-- The message after an edit: as it was if the edit is refused. -/
def Instance.after (G : Catalog n) (m : Instance n) (e : Edit n) : Instance n :=
  match e.apply G m with
  | .ok m' => m'
  | .error _ => m

/-- **In place, an edit leaves the same message,** whether it is refused or not. -/
theorem Edit.change_eq (m : Instance n) (e : Edit n) :
    e.change G m = .ok () (m.after G e) ∨ ∃ err, e.change G m = .error err (m.after G e) := by
  rw [Instance.after, apply_eq, Change.outcome]
  cases h : e.change G m with
  | ok u m' => exact Or.inl rfl
  | error err m' =>
    have hm : m' = m := by
      cases e with
      | set name v => exact Change.eq_of_set_eq_error h
      | setSequence name items => exact Change.eq_of_setSequence_eq_error h
    exact Or.inr ⟨err, by rw [hm]⟩

theorem Instance.Shaped.after {m : Instance n} (h : m.Shaped G) {e : Edit n}
    (he : ∀ u ∈ e.messages, u.Shaped G) : (m.after G e).Shaped G := by
  rw [Instance.after]
  split
  · rename_i m' hm
    cases e with
    | set name v => exact h.set (Value.shaped_of_messages he) hm
    | setSequence name items => exact h.setSequence (Value.shapedAll_of_messages he) hm
  · exact h

/-! ## Whole histories -/

/-- **The messages that can be made:** default messages, decoded messages, copies, and messages
after edits, refused ones included, with messages that have been made. -/
inductive Made (G : Catalog n) : Instance n → Prop
  | new {s : Fin n} {m : Instance n} (h : G.new s = .ok m) : Made G m
  | decoded {s : Fin n} {limits : Limits} {source left : Source} {m : Instance n}
      (h : (Instance.decode G s).run source limits = (.ok m, left)) : Made G m
  | copied {m : Instance n} (hm : Made G m) : Made G m.copy
  | edited {m : Instance n} (hm : Made G m) (e : Edit n) (he : ∀ u ∈ e.messages, Made G u) :
      Made G (m.after G e)

/-- **What has been made is shaped,** whatever its history. -/
theorem Made.shaped {m : Instance n} (h : Made G m) : m.Shaped G := by
  induction h with
  | new h => exact Catalog.shaped_of_new h
  | decoded h => exact Instance.shaped_of_run_decode h
  | copied _ ih => rwa [Instance.copy_eq]
  | edited _ e _ ih he => exact ih.after he

end MessageWire
