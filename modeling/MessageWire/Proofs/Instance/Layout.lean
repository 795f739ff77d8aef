import Mathlib.Algebra.Ring.Nat
import MessageWire.Proofs.Instance.Agreement
import MessageWire.Proofs.Instance.Shaped

/-!
# The layout of a message

On the wire a message is its fingerprint and its scalars, one after the other. So its size is known
from its values, and a message inside another is there as it would be alone, its fingerprint apart.

* `Scalar.bytes`, `Scalar.length_bytes`: the wire form of a scalar, and its size;
* `Value.scalars`, `Instance.scalars`: the scalars of a message, in order;
* `Value.leaves_eq_flatMap`, `Value.size_eq_sum`: wire form and size, scalar by scalar;
* `Value.Written`, `Value.scalarsAll_infix_of_mem`: the messages inside;
* **`Instance.toBytes_layout`**: the bytes of a message.
-/

namespace MessageWire

variable {n : Nat} {G : Catalog n}

/-! ## Scalars -/

namespace Scalar

/-- The wire form of a scalar by itself. -/
def bytes (v : Scalar) : Bytes := wire v.cells

theorem length_bytes (v : Scalar) : v.bytes.length = v.size := by
  rw [bytes, length_wire]
  cases v <;>
    simp [cells, size, Cell.contents, BigEndian.length_encode, textLengthSize, Nat.add_assoc]

/-- A scalar that can be written is written in this form. -/
theorem toBytes_eq_bytes {v : Scalar} (hv : v.Writable) :
    (Write.scalar v).toBytes = .ok v.bytes := by
  rw [Write.toBytes, Write.into, Write.scalar_eq Encoder.open_new_memory hv]
  simp [Encoder.put, Encoder.new, Sink.memory, bytes]

end Scalar

namespace Value

mutual

/-- The scalars that a value consists of, in order. -/
def scalars : Value n → List Scalar
  | .scalar w => [w]
  | .array items => scalarsAll items
  | .message _ values => scalarsAll values

/-- The scalars of some values, in order. -/
def scalarsAll : List (Value n) → List Scalar
  | [] => []
  | v :: vs => scalars v ++ scalarsAll vs

end

mutual

/-- The leaves of a value are those of its scalars. -/
theorem leaves_eq_flatMap (v : Value n) : v.leaves = v.scalars.flatMap Scalar.cells := by
  cases v with
  | scalar w => exact (List.flatMap_singleton ..).symm
  | array items => exact leavesAll_eq_flatMap items
  | message s values => exact leavesAll_eq_flatMap values

theorem leavesAll_eq_flatMap (vs : List (Value n)) :
    leavesAll vs = (scalarsAll vs).flatMap Scalar.cells := by
  cases vs with
  | nil => rfl
  | cons v vs =>
    rw [leavesAll, scalarsAll, List.flatMap_append, leaves_eq_flatMap v, leavesAll_eq_flatMap vs]

end

mutual

/-- The size of a value is that of its scalars. -/
theorem size_eq_sum (v : Value n) : v.size = (v.scalars.map Scalar.size).sum := by
  cases v with
  | scalar w => exact (List.sum_singleton ..).symm
  | array items => exact sizeAll_eq_sum items
  | message s values => exact sizeAll_eq_sum values

theorem sizeAll_eq_sum (vs : List (Value n)) :
    sizeAll vs = ((scalarsAll vs).map Scalar.size).sum := by
  cases vs with
  | nil => rfl
  | cons v vs =>
    rw [sizeAll, scalarsAll, List.map_append, List.sum_append, size_eq_sum v, sizeAll_eq_sum vs]

end

end Value

namespace Instance

/-- The scalars of a message, field by field in the order of its schema. -/
def scalars (m : Instance n) : List Scalar := Value.scalarsAll m.values

variable {m u : Instance n}

/-- The bytes of a message, fingerprint apart. -/
theorem wire_cells (hw : m.WellFormed G) (hc : m.Complete G) :
    wire (m.cells G) = (G.fingerprint m.schema).toBytes ++ m.scalars.flatMap Scalar.bytes := by
  rw [cells_eq_leaves hw hc, wire_append, wire_contents, Value.leavesAll_eq_flatMap, wire,
    List.map_flatMap]
  rfl

/-- **The size of a message** is that of its fingerprint and its scalars. -/
theorem size_eq (m : Instance n) : m.size = 8 + (m.scalars.flatMap Scalar.bytes).length := by
  rw [size, Value.sizeAll_eq_sum, List.length_flatMap]
  exact congrArg (8 + List.sum ·)
    (List.map_congr_left fun v _ => (Scalar.length_bytes v).symm)

end Instance

/-! ## Messages inside -/

namespace Value

/-- A value that can be written, where it is of its kind. -/
def Written (G : Catalog n) (v : Value n) : Prop :=
  ∃ m field kind, ∀ a ∈ v.nodes G m field kind, a.Sound G ∧ a.Complete G

theorem Written.scalar {w : Scalar} (h : (scalar w).Written G) : w.Writable := by
  obtain ⟨m, field, kind, h⟩ := h
  have hself := (h _ (self_mem_nodes G m field kind _)).1
  cases kind with
  | primitive p => exact hself.2
  | _ => exact hself.elim

theorem Written.array {items : List (Value n)} (h : (array items).Written G) :
    ∀ v ∈ items, v.Written G := by
  obtain ⟨m, field, kind, h⟩ := h
  have hself := (h _ (self_mem_nodes G m field kind _)).1
  cases kind with
  | array element x =>
    rw [nodes_array, List.forall_mem_cons, List.forall_mem_flatMap] at h
    exact fun v hv => ⟨m, field, element, h.2 v hv⟩
  | _ => exact hself.elim

theorem Written.message {s : Fin n} {values : List (Value n)}
    (h : (message s values).Written G) :
    Instance.WellFormed G ⟨s, values⟩ ∧ Instance.Complete G ⟨s, values⟩ := by
  obtain ⟨m, field, kind, h⟩ := h
  have hself := (h _ (self_mem_nodes G m field kind _)).1
  cases kind with
  | message t =>
    rw [nodes_message, List.forall_mem_cons] at h
    exact ⟨fun a ha => (h.2 a ha).1, h.1.2, fun a ha => (h.2 a ha).2⟩
  | _ => exact hself.elim

end Value

/-- The values of a message that can be written. -/
theorem Instance.written_of_mem {m : Instance n} (hw : m.WellFormed G) (hc : m.Complete G)
    {v : Value n} (hv : v ∈ m.values) : v.Written G := by
  obtain ⟨f, hf⟩ := exists_field_of_mem hc.1 hv
  refine ⟨m, f.name, f.kind, fun a ha => ?_⟩
  have hmem : a ∈ m.nodes G := by
    rw [nodes_eq_flatMap]
    exact List.mem_flatMap.mpr ⟨_, hf, ha⟩
  exact ⟨hw a hmem, hc.2 a hmem⟩

namespace Value

mutual

/-- What is inside a value that can be written: scalars and messages that can be. -/
theorem Written.inside {v : Value n} (h : v.Written G) :
    (∀ w ∈ v.scalars, w.Writable) ∧ ∀ u ∈ v.instances, u.WellFormed G ∧ u.Complete G := by
  cases v with
  | scalar w => exact ⟨List.forall_mem_singleton.mpr h.scalar, List.forall_mem_nil _⟩
  | array items => exact insideAll h.array
  | message s values =>
    obtain ⟨hw, hc⟩ := h.message
    obtain ⟨hs, hi⟩ := insideAll fun v => Instance.written_of_mem hw hc
    exact ⟨hs, List.forall_mem_cons.mpr ⟨⟨hw, hc⟩, hi⟩⟩

theorem Written.insideAll {vs : List (Value n)} (h : ∀ v ∈ vs, v.Written G) :
    (∀ w ∈ scalarsAll vs, w.Writable) ∧
      ∀ u ∈ instancesAll vs, u.WellFormed G ∧ u.Complete G := by
  cases vs with
  | nil => exact ⟨List.forall_mem_nil _, List.forall_mem_nil _⟩
  | cons v vs =>
    rw [List.forall_mem_cons] at h
    obtain ⟨hs, hi⟩ := h.1.inside
    obtain ⟨hss, his⟩ := insideAll h.2
    exact ⟨List.forall_mem_append.mpr ⟨hs, hss⟩, List.forall_mem_append.mpr ⟨hi, his⟩⟩

end

mutual

/-- The scalars of a message inside a value are a stretch of those of the value. -/
theorem scalars_infix_of_mem {v : Value n} {u : Instance n} (h : u ∈ v.instances) :
    u.scalars <:+: v.scalars := by
  cases v with
  | scalar w => cases h
  | array items => exact scalarsAll_infix_of_mem h
  | message s values =>
    obtain rfl | h := List.mem_cons.mp h
    · exact List.infix_rfl
    · exact scalarsAll_infix_of_mem h

theorem scalarsAll_infix_of_mem {vs : List (Value n)} {u : Instance n}
    (h : u ∈ instancesAll vs) : u.scalars <:+: scalarsAll vs := by
  cases vs with
  | nil => cases h
  | cons v vs =>
    obtain h | h := List.mem_append.mp h
    · exact (scalars_infix_of_mem h).trans (List.prefix_append ..).isInfix
    · exact (scalarsAll_infix_of_mem h).trans (List.suffix_append ..).isInfix

end

end Value

/-! ## Whole messages -/

namespace Instance

/-- **The layout of a message.** Its bytes are its fingerprint and the wire forms of its scalars, in
order and with nothing between them, as many as its size says. Each scalar is there as it is written
by itself, and each message inside as it is encoded by itself, but for a fingerprint. -/
theorem toBytes_layout {m : Instance n} {bs : Bytes} (hc : m.Complete G)
    (h : m.toBytes G = .ok bs) :
    bs = (G.fingerprint m.schema).toBytes ++ m.scalars.flatMap Scalar.bytes ∧
      bs.length = m.size ∧
      (∀ v ∈ m.scalars, (Write.scalar v).toBytes = .ok v.bytes ∧ v.bytes.length = v.size) ∧
      ∀ u ∈ m.instances, u.scalars <:+: m.scalars ∧
        u.toBytes G =
          .ok ((G.fingerprint u.schema).toBytes ++ u.scalars.flatMap Scalar.bytes) := by
  obtain ⟨hw, rfl⟩ := toBytes_eq_ok_iff.mp h
  obtain ⟨hs, hi⟩ := Value.Written.insideAll fun v => written_of_mem hw hc
  refine ⟨wire_cells hw hc, ?_, fun v hv => ⟨v.toBytes_eq_bytes (hs v hv), v.length_bytes⟩,
    List.forall_mem_cons.mpr ⟨⟨List.infix_rfl, ?_⟩, fun u hu => ⟨?_, ?_⟩⟩⟩
  · rw [wire_cells hw hc, List.length_append, size_eq, Fingerprint.toBytes,
      BigEndian.length_encode]
  · rw [toBytes_eq hw, wire_cells hw hc]
  · exact Value.scalarsAll_infix_of_mem hu
  · obtain ⟨huw, huc⟩ := hi u hu
    rw [toBytes_eq huw, wire_cells huw huc]

/-- A tree in a tree, and the inner one by itself. -/
theorem toBytes_layout_sapling :
    (wire (sapling.cells Builtin.catalog)).length = 24 ∧
      toBytes Builtin.catalog ⟨Builtin.tree, [.scalar (.int32 7), .scalar (.int32 0), .array []]⟩ =
        .ok ((Builtin.catalog.fingerprint Builtin.tree).toBytes ++ [0, 0, 0, 7, 0, 0, 0, 0]) := by
  obtain ⟨-, hlength, -, hinside⟩ :=
    toBytes_layout (G := Builtin.catalog) (m := sapling) (by decide) (toBytes_eq (by decide))
  exact ⟨hlength, (hinside ⟨Builtin.tree, [.scalar (.int32 7), .scalar (.int32 0), .array []]⟩
    (List.mem_cons_of_mem _ List.mem_cons_self)).2⟩

end Instance

end MessageWire
