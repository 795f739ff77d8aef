import Mathlib.Data.List.Infix
import MessageWire.Proofs.Instance.Decode

/-!
# The parts of a message

What can be decoded consists of parts that can be decoded, and the parts follow one another on the
wire.

* `Node.inside`, `Instance.inside_infix_nodes`, `Instance.cells_infix_cells`: a node and all that is
  inside it, as a stretch of the message and of its wire form;
* `Value.Decodable.exists_mem_of_fixed`: an element of an array of a fixed length;
* `Instance.forall_decodable_iff`, `Instance.forall_readable_iff`: the fields and the nodes of a
  message that can be decoded;
* `Value.cells_message_eq_flatMap`: the wire form of a message, field by field.
-/

namespace MessageWire

variable {n : Nat} {G : Catalog n}

/-! ## Stretches of nodes -/

/-- A node and all that is inside it. -/
def Node.inside (G : Catalog n) (a : Node n) : List (Node n) :=
  Value.nodes G a.around a.field a.kind a.value

namespace Value

mutual

theorem inside_infix_nodes {v : Value n} {m : Instance n} {field : String} {kind : Kind n}
    {a : Node n} (h : a ∈ nodes G m field kind v) : a.inside G <:+: nodes G m field kind v := by
  have hself (hv : a = ⟨m, field, kind, v⟩) : a.inside G <:+: nodes G m field kind v := by
    rw [hv]
    exact List.infix_rfl
  cases v with
  | scalar w =>
    apply hself
    cases kind <;> exact List.mem_singleton.mp (by simpa [nodes] using h)
  | array items =>
    cases kind with
    | array element x =>
      rw [nodes] at h
      rcases List.mem_cons.mp h with hv | h
      · exact hself hv
      · rw [nodes]
        exact (insideAll_infix_nodes h).trans (List.suffix_cons ..).isInfix
    | _ => exact hself (List.mem_singleton.mp (by simpa [nodes] using h))
  | message u values =>
    cases kind with
    | message t =>
      rw [nodes] at h
      rcases List.mem_cons.mp h with hv | h
      · exact hself hv
      · rw [nodes]
        exact (insideFields_infix_nodes h).trans (List.suffix_cons ..).isInfix
    | _ => exact hself (List.mem_singleton.mp (by simpa [nodes] using h))

theorem insideAll_infix_nodes {vs : List (Value n)} {m : Instance n} {field : String}
    {kind : Kind n} {a : Node n} (h : a ∈ nodesAll G m field kind vs) :
    a.inside G <:+: nodesAll G m field kind vs := by
  cases vs with
  | nil => cases h
  | cons v vs =>
    rw [nodesAll] at h ⊢
    rcases List.mem_append.mp h with h | h
    · exact (inside_infix_nodes h).trans (List.prefix_append ..).isInfix
    · exact (insideAll_infix_nodes h).trans (List.suffix_append ..).isInfix

theorem insideFields_infix_nodes {vs : List (Value n)} {m : Instance n} {fs : List (Field n)}
    {a : Node n} (h : a ∈ nodesFields G m fs vs) :
    a.inside G <:+: nodesFields G m fs vs := by
  cases vs with
  | nil => cases fs <;> cases h
  | cons v vs =>
    cases fs with
    | nil => cases h
    | cons f fs =>
      rw [nodesFields] at h ⊢
      rcases List.mem_append.mp h with h | h
      · exact (inside_infix_nodes h).trans (List.prefix_append ..).isInfix
      · exact (insideFields_infix_nodes h).trans (List.suffix_append ..).isInfix

end

end Value

/-- **What is inside a node is a stretch of the message.** -/
theorem Instance.inside_infix_nodes {m : Instance n} {a : Node n} (h : a ∈ m.nodes G) :
    a.inside G <:+: m.nodes G := Value.insideFields_infix_nodes h

/-- What is inside a message that can be decoded can be decoded. -/
theorem Instance.decodable_of_mem {m : Instance n} {limits : Limits}
    (hm : ∀ a ∈ m.nodes G, a.Readable G limits) {a : Node n} (h : a ∈ m.nodes G) :
    a.value.Decodable G a.around a.field a.kind limits a.value.nesting :=
  ⟨fun b hb => hm b ((inside_infix_nodes h).subset hb), Nat.le_refl _⟩

/-- A fixed array that is not empty has an element, which can be decoded if the array can be. -/
theorem Value.Decodable.exists_mem_of_fixed {m : Instance n} {field : String} {element : Kind n}
    {size : UInt64} {limits : Limits} {room : Nat} {items : List (Value n)}
    (h : (Value.array items).Decodable G m field (.array element (.fixed size)) limits room)
    (hz : size ≠ 0) : ∃ w ∈ items, w.Decodable G m field element limits room := by
  obtain ⟨_, ⟨⟨hc, -⟩, hi⟩, ⟨⟩⟩ := decodable_array_iff.mp h
  have hlen : items.length = size.toNat := hc
  have hpos : size.toNat ≠ 0 := fun e => hz (UInt64.toNat_inj.mp e)
  obtain ⟨w, hw⟩ := List.exists_mem_of_length_pos (l := items) (by omega)
  exact ⟨w, hw, hi w hw⟩

/-- What is inside a message is a stretch of its wire form. -/
theorem Instance.cells_infix_cells {m : Instance n} {a : Node n} (h : a ∈ m.nodes G) :
    a.value.cells G a.around a.field a.kind <:+: (m.nodes G).flatMap Node.cells :=
  List.IsInfix.flatMap (inside_infix_nodes h) Node.cells

/-! ## Fields -/

namespace Instance

variable {s : Fin n} {values : List (Value n)} {limits : Limits} {room : Nat}

theorem nodes_eq_flatMap (G : Catalog n) (s : Fin n) (values : List (Value n)) :
    nodes G ⟨s, values⟩ = ((G s).fields.zip values).flatMap fun p =>
      p.2.nodes G ⟨s, values⟩ p.1.name p.1.kind := Value.nodesFields_eq_flatMap ..

theorem exists_field_of_mem (hl : values.length = (G s).fields.length) {v : Value n}
    (hv : v ∈ values) : ∃ f, (f, v) ∈ (G s).fields.zip values := by
  rw [← List.map_snd_zip hl.le] at hv
  obtain ⟨⟨f, _⟩, h, rfl⟩ := List.mem_map.mp hv
  exact ⟨f, h⟩

theorem exists_value_of_mem (hl : values.length = (G s).fields.length) {f : Field n}
    (hf : f ∈ (G s).fields) : ∃ v, (f, v) ∈ (G s).fields.zip values := by
  rw [← List.map_fst_zip hl.ge] at hf
  obtain ⟨⟨_, v⟩, h, rfl⟩ := List.mem_map.mp hf
  exact ⟨v, h⟩

/-- **A message can be decoded when all its fields can be.** -/
theorem forall_decodable_iff (hl : values.length = (G s).fields.length) :
    (∀ p ∈ (G s).fields.zip values,
      p.2.Decodable G ⟨s, values⟩ p.1.name p.1.kind limits room) ↔
    (∀ a ∈ nodes G ⟨s, values⟩, a.Readable G limits) ∧ Value.nestingAll values ≤ room := by
  rw [nodes_eq_flatMap, Value.nestingAll_le_iff]
  simp only [List.mem_flatMap]
  constructor
  · intro h
    refine ⟨?_, fun v hv => ?_⟩
    · rintro a ⟨p, hp, ha⟩
      exact (h p hp).1 a ha
    · obtain ⟨f, hf⟩ := exists_field_of_mem hl hv
      exact (h _ hf).2
  · rintro ⟨ha, hv⟩ p hp
    exact ⟨fun a hm => ha a ⟨p, hp, hm⟩, hv _ (List.of_mem_zip hp).2⟩

/-- What a decoder asks of a message, it asks of its nodes. -/
theorem forall_readable_iff {m : Instance n} :
    (m.values.length = (G m.schema).fields.length ∧ (∀ a ∈ m.nodes G, a.Readable G limits) ∧
      m.nesting ≤ limits.maxDepth.toNat) ↔
    m.WellFormed G ∧ m.Bound G ∧ m.Complete G ∧ m.Respects G limits := by
  constructor
  · rintro ⟨hl, ha, hr⟩
    exact ⟨fun a h => (ha a h).1, fun a h => (ha a h).2.1, ⟨hl, fun a h => (ha a h).2.2.1⟩, hr,
      fun a h => (ha a h).2.2.2⟩
  · rintro ⟨hw, hb, ⟨hl, hc⟩, hr, hL⟩
    exact ⟨hl, fun a h => ⟨hw a h, hb a h, hc a h, hL a h⟩, hr⟩

end Instance

/-- The wire form of a message, field by field. -/
theorem Value.cells_message_eq_flatMap (m : Instance n) (field : String) (t : Fin n)
    (values : List (Value n)) :
    cells G m field (.message t) (.message t values) =
      ((G t).fields.zip values).flatMap fun p => p.2.cells G ⟨t, values⟩ p.1.name p.1.kind := by
  rw [cells_message, Instance.nodes_eq_flatMap, List.flatMap_assoc]
  rfl

end MessageWire
