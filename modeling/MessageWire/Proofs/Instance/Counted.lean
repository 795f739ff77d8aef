import Mathlib.Algebra.BigOperators.Group.List.Basic
import MessageWire.Proofs.Instance.Default

/-!
# Counts and the input

The elements of an array are nothing but their own bytes. Where every element takes a byte, an array
that has been read is no longer than the input; where an element may take none, its count is free.

* `Catalog.Solid`: kinds of which every value takes at least one byte, `Catalog.Solid.cells_ne_nil`,
  `Catalog.size_of_defaultFor`;
* **`Instance.length_le_of_run_decode`**: counts of solid elements are paid for;
* `Instance.run_decode_emptyTable`: other counts are not.
-/

namespace MessageWire

variable {n : Nat} {G : Catalog n}

namespace Catalog

/-- **Solid kinds,** of which every value takes at least one byte: primitives, messages with a solid
field, and fixed arrays of solid elements that are not empty. -/
inductive Solid (G : Catalog n) : Kind n → Prop
  | primitive (p : Primitive) : Solid G (.primitive p)
  | message {t : Fin n} {f : Field n} : f ∈ (G t).fields → Solid G f.kind → Solid G (.message t)
  | array {element : Kind n} {size : UInt64} :
      size ≠ 0 → Solid G element → Solid G (.array element (.fixed size))

end Catalog

theorem Scalar.cells_ne_nil (v : Scalar) : v.cells ≠ [] := by
  cases v <;> simp [cells, Cell.contents, BigEndian.encode]

namespace Catalog

/-- **A solid value takes a byte.** -/
theorem Solid.cells_ne_nil {kind : Kind n} (hk : G.Solid kind) {m : Instance n} {field : String}
    {limits : Limits} {room : Nat} {v : Value n} (hv : v.Decodable G m field kind limits room) :
    v.cells G m field kind ≠ [] := by
  induction hk generalizing m field room v with
  | primitive p =>
    obtain ⟨w, -, rfl⟩ := Value.decodable_primitive_iff.mp hv
    rw [Value.cells_scalar]
    exact w.cells_ne_nil
  | @message t f hf _ ih =>
    obtain ⟨values, ⟨hl, ha, hr⟩, rfl⟩ := Value.decodable_message_iff.mp hv
    obtain ⟨w, hw⟩ := Instance.exists_value_of_mem hl hf
    have hd := (Instance.forall_decodable_iff hl).mpr ⟨ha, Nat.le_of_lt hr⟩ _ hw
    rw [Value.cells_message_eq_flatMap]
    intro h
    exact ih hd (List.flatMap_eq_nil_iff.mp h _ hw)
  | @array element size hz _ ih =>
    obtain ⟨items, -, rfl⟩ := Value.decodable_array_iff.mp hv
    obtain ⟨w, hw, hd⟩ := hv.exists_mem_of_fixed hz
    rw [Value.cells_array]
    intro h
    exact ih hd (List.flatMap_eq_nil_iff.mp h _ hw)

/-- Solid elements are no more than their bytes. -/
theorem Solid.length_le {element : Kind n} (hk : G.Solid element) {m : Instance n} {field : String}
    {limits : Limits} {room : Nat} {items : List (Value n)}
    (hi : ∀ w ∈ items, w.Decodable G m field element limits room) :
    items.length ≤ (items.flatMap (Value.cells G m field element)).length := by
  rw [List.length_flatMap, ← List.length_map (f := fun w => (w.cells G m field element).length)]
  refine List.length_le_sum_of_one_le _ fun k hmem => ?_
  obtain ⟨w, hw, rfl⟩ := List.mem_map.mp hmem
  exact List.length_pos_iff.mpr (hk.cells_ne_nil (hi w hw))

/-! ## Values that are not solid -/

theorem sizeAll_eq_zero_of_forall {vs : List (Value n)} (h : ∀ v ∈ vs, v.size = 0) :
    Value.sizeAll vs = 0 := by
  induction vs with
  | nil => rfl
  | cons v vs ih =>
    rw [List.forall_mem_cons] at h
    rw [Value.sizeAll, h.1, ih h.2]

/-- A default that is not solid takes no bytes, if those of nested messages take none. -/
theorem size_of_default {nested : Fin n → Except SchemaError (Value n)}
    (hn : ∀ t v, ¬ G.Solid (.message t) → nested t = .ok v → v.size = 0) {kind : Kind n}
    (hk : ¬ G.Solid kind) {v : Value n} (h : kind.default nested = .ok v) : v.size = 0 := by
  induction kind generalizing v with
  | primitive p => exact absurd (.primitive p) hk
  | message t => exact hn t v hk h
  | array element x ih =>
    cases x with
    | fixed size =>
      rw [Kind.default] at h
      split_ifs at h with hz
      · cases h
        rfl
      · obtain ⟨w, hw, h⟩ := exists_of_bind_eq_ok h
        cases h
        refine sizeAll_eq_zero_of_forall fun u hu => ?_
        rw [List.eq_of_mem_replicate hu]
        exact ih (fun he => hk (.array hz he)) hw
    | counted c =>
      cases h
      rfl

theorem size_of_defaultBelow {path : List (Fin n)} {s : Fin n} (hs : ¬ G.Solid (.message s))
    {values : List (Value n)} (h : G.defaultBelow path s = .ok values) :
    Value.sizeAll values = 0 := by
  induction path, s using defaultBelow.induct generalizing values with
  | case1 path s ih =>
    rw [defaultBelow] at h
    refine sizeAll_eq_zero_of_forall (forall_of_mapM_eq_ok h fun f hf v hv => ?_).2
    refine size_of_default (fun t w ht hw => ?_) (fun hk => hs (.message hf hk)) hv
    split_ifs at hw with hm
    obtain ⟨vs, hvs, hw⟩ := exists_of_bind_eq_ok hw
    cases hw
    exact ih t hm ht hvs

/-- **The default of a kind that is not solid takes no bytes,** so any number of such values may
follow a count. -/
theorem size_of_defaultFor {kind : Kind n} (hk : ¬ G.Solid kind) {v : Value n}
    (h : G.defaultFor kind = .ok v) : v.size = 0 := by
  refine size_of_default (fun t w ht hw => ?_) hk h
  obtain ⟨vs, hvs, hw⟩ := exists_of_bind_eq_ok hw
  cases hw
  exact size_of_defaultBelow ht hvs

end Catalog

/-! ## Counts -/

namespace Instance

/-- **A count of solid elements cannot outrun the input:** the elements of an array that has been
decoded, and the fingerprint, are no more than the bytes that have been used. -/
theorem length_le_of_run_decode {s : Fin n} {limits : Limits} {bs : Bytes} {m : Instance n}
    {left : Source} (h : (decode G s).run (.memory bs) limits = (.ok m, left)) :
    ∃ used rest, bs = used ++ rest ∧ left = .memory rest ∧
      ∀ around field element c items,
        ⟨around, field, .array element (.counted c), .array items⟩ ∈ m.nodes G → G.Solid element →
          fingerprintSize + items.length ≤ used.length := by
  obtain ⟨⟨rfl, hm⟩, used, rest, rfl, hs, rfl⟩ := run_decode_eq_ok_iff.mp h
  obtain ⟨-, ha, -⟩ := forall_readable_iff.mpr hm
  refine ⟨used, rest, rfl, rfl, fun around field element c items hmem hk => ?_⟩
  have hd := decodable_of_mem ha hmem
  obtain ⟨_, ⟨-, hi⟩, ⟨⟩⟩ := Value.decodable_array_iff.mp hd
  have hcells := (cells_infix_cells hmem).length_le
  rw [Value.cells_array] at hcells
  have hlen := hs.length_eq
  rw [cells, List.length_append, Cell.contents, List.length_map] at hlen
  have hfp : (G.fingerprint m.schema).toBytes.length = fingerprintSize :=
    BigEndian.length_encode ..
  have := hk.length_le hi
  omega

/-- One tree below another, in eight bytes and more. -/
theorem length_le_sapling :
    (decode Builtin.catalog Builtin.tree).run (.memory (wire (sapling.cells Builtin.catalog)))
        .standard = (.ok sapling, .memory []) ∧
      fingerprintSize + 1 ≤ (wire (sapling.cells Builtin.catalog)).length := by
  have hrun : (decode Builtin.catalog Builtin.tree).run
      (.memory (wire (sapling.cells Builtin.catalog))) .standard = (.ok sapling, .memory []) :=
    run_decode_eq_ok_iff.mpr ⟨⟨rfl, by decide, by decide, by decide, by decide⟩, _, [],
      (List.append_nil _).symm, spells_wire _, rfl⟩
  obtain ⟨used, rest, hused, hleft, hle⟩ := length_le_of_run_decode hrun
  cases hleft
  rw [List.append_nil] at hused
  have hsolid : Builtin.catalog.Solid (.message Builtin.tree) :=
    .message (f := ⟨"value", .primitive .int32⟩) List.mem_cons_self (.primitive .int32)
  exact ⟨hrun, hused ▸ hle _ _ _ _ _
    (List.mem_cons_of_mem _ (List.mem_cons_of_mem _ List.mem_cons_self)) hsolid⟩

/-- Rows of columns, either of any number. -/
def tables : Catalog 1 := fun _ =>
  ⟨"Table", [⟨"rows", .primitive .int32⟩, ⟨"columns", .primitive .int32⟩,
    ⟨"cells", .array (.array (.primitive .byte) (.counted "columns")) (.counted "rows")⟩], 0, [],
    by decide, by decide⟩

/-- Seventeen rows of no columns. -/
def emptyTable : Instance 1 :=
  ⟨.last 0, [.scalar (.int32 17), .scalar (.int32 0), .array (List.replicate 17 (.array []))]⟩

/-- **Elements that are not solid are not paid for:** seventeen rows from sixteen bytes. -/
theorem run_decode_emptyTable :
    (decode tables 0).run
        (.memory ((tables.fingerprint 0).toBytes ++ [0, 0, 0, 17, 0, 0, 0, 0])) .unlimited =
        (.ok emptyTable, .memory []) ∧
      ((tables.fingerprint 0).toBytes ++ [0, 0, 0, 17, 0, 0, 0, 0]).length = 16 ∧
      ⟨emptyTable, "cells", .array (.array (.primitive .byte) (.counted "columns")) (.counted "rows"),
        .array (List.replicate 17 (.array []))⟩ ∈ emptyTable.nodes tables := by
  refine ⟨run_decode_eq_ok_iff.mpr ⟨⟨rfl, by decide, by decide, by decide, by decide⟩, _, [],
    (List.append_nil _).symm, ?_, rfl⟩, ?_, ?_⟩
  · exact spells_append_iff.mpr ⟨_, _, rfl, spells_contents_iff.mpr rfl, by decide⟩
  · rw [List.length_append, Fingerprint.toBytes, BigEndian.length_encode]
    rfl
  · exact List.mem_cons_of_mem _ (List.mem_cons_of_mem _ List.mem_cons_self)

end Instance

end MessageWire
