import MessageWire.Proofs.Instance.Decode
import MessageWire.Proofs.Instance.Encode
import MessageWire.Typed.Catalog

/-!
# Round trips

What is encoded is decoded again, and what is decoded can be encoded. The bytes come back as they
were but for those that a reader does not look at closely.

* `Value.agrees_refl`, `Instance.agrees_refl`: a message agrees with itself;
* **`Instance.run_decode_of_toBytes`**: from a message to bytes and back;
* **`Instance.toBytes_of_run_decode`**: from bytes to a message and back.
-/

namespace MessageWire

variable {n : Nat} {G : Catalog n}

/-! ## Agreement -/

namespace Value

mutual

theorem agrees_refl (v : Value n) : v.agrees G v = true := by
  cases v with
  | scalar w => exact beq_self_eq_true w
  | array items => exact agreesAll_refl items
  | message s values =>
    rw [agrees, G.compatible_refl, Bool.true_and]
    exact agreesAll_refl values

theorem agreesAll_refl (vs : List (Value n)) : agreesAll G vs vs = true := by
  cases vs with
  | nil => rfl
  | cons v vs =>
    rw [agreesAll, agrees_refl v, Bool.true_and]
    exact agreesAll_refl vs

end

end Value

namespace Instance

theorem agrees_refl (m : Instance n) : m.agrees G m = true := by
  rw [agrees, G.compatible_refl, Value.agreesAll_refl, Bool.true_and]

/-! ## Round trips -/

/-- **What is encoded is decoded again:** a message that is bound to the schemas that its kinds
name comes back from its bytes under all limits that it respects, and what follows is left. -/
theorem run_decode_of_toBytes {m : Instance n} {limits : Limits} {bs : Bytes}
    (hc : m.Complete G) (hb : m.Bound G) (hl : m.Respects G limits)
    (h : m.toBytes G = .ok bs) (rest : Bytes) :
    (decode G m.schema).run (.memory (bs ++ rest)) limits = (.ok m, .memory rest) ∧
      m.agrees G m = true := by
  obtain ⟨hw, rfl⟩ := toBytes_eq_ok_iff.mp h
  have hd := run_decode_eq_ok_iff.mpr ⟨⟨rfl, hw, hb, hc, hl⟩, _, rest, rfl, spells_wire _, rfl⟩
  exact ⟨hd, m.agrees_refl⟩

/-- A tree with one tree below it. -/
def sapling : Instance 4 :=
  ⟨Builtin.tree, [.scalar (.int32 2), .scalar (.int32 1),
    .array [.message Builtin.tree [.scalar (.int32 7), .scalar (.int32 0), .array []]]]⟩

theorem run_decode_sapling :
    (decode Builtin.catalog Builtin.tree).run
        (.memory (wire (sapling.cells Builtin.catalog) ++ [255])) ⟨0, 1, 2⟩ =
      (.ok sapling, .memory [255]) ∧ sapling.agrees Builtin.catalog sapling = true :=
  run_decode_of_toBytes (by decide) (by decide) (by decide) (toBytes_eq (by decide)) [255]

/-- **What is decoded can be encoded:** in as many bytes as were used, which differ from them at
true booleans and at the ends of texts only, and from which the same message is decoded again. -/
theorem toBytes_of_run_decode {s : Fin n} {limits : Limits} {bs : Bytes} {m : Instance n}
    {left : Source} (h : (decode G s).run (.memory bs) limits = (.ok m, left)) :
    ∃ used rest out, bs = used ++ rest ∧ left = .memory rest ∧
      m.toBytes G = .ok out ∧ out.length = used.length ∧
      (∀ i (hu : i < used.length) (ho : i < out.length), out[i] ≠ used[i] →
        ((m.cells G)[i]? = some (.truth true) ∧ used[i] ≠ 0 ∧ out[i] = 1) ∨
          ((m.cells G)[i]? = some .terminator ∧ out[i] = 0)) ∧
      ∃ m', (decode G s).run (.memory out) limits = (.ok m', .memory []) ∧
        m'.agrees G m = true := by
  obtain ⟨⟨rfl, hw, hb, hc, hl⟩, used, rest, rfl, hs, rfl⟩ := run_decode_eq_ok_iff.mp h
  refine ⟨used, rest, wire (m.cells G), rfl, rfl, toBytes_eq hw, ?_, ?_, m, ?_, m.agrees_refl⟩
  · rw [length_wire, hs.length_eq]
  · intro i hu ho hne
    exact getElem_of_spells hs hu ho hne
  · exact run_decode_eq_ok_iff.mpr ⟨⟨rfl, hw, hb, hc, hl⟩, _, [], (List.append_nil _).symm,
      spells_wire _, rfl⟩

theorem toBytes_lamp :
    ∃ used rest out, (lamps.fingerprint 0).toBytes ++ [7, 0, 0, 0, 2, 120, 5] ++ [255] =
        used ++ rest ∧ Source.memory [255] = .memory rest ∧
      lamp.toBytes lamps = .ok out ∧ out.length = used.length ∧
      (∀ i (hu : i < used.length) (ho : i < out.length), out[i] ≠ used[i] →
        ((lamp.cells lamps)[i]? = some (.truth true) ∧ used[i] ≠ 0 ∧ out[i] = 1) ∨
          ((lamp.cells lamps)[i]? = some .terminator ∧ out[i] = 0)) ∧
      ∃ m', (decode lamps 0).run (.memory out) .standard = (.ok m', .memory []) ∧
        m'.agrees lamps lamp = true :=
  toBytes_of_run_decode run_decode_lamp

end Instance

end MessageWire
