import Mathlib.Data.List.Forall2
import MessageWire.Limits.Basic
import MessageWire.Scalar

/-!
# Cells

The wire form of a scalar is a row of cells. A writer puts one byte for each of them; a reader takes
every byte that stands for it, so a text may end in any byte and a truth value has many forms.

* `Cell`, `Cell.byte`, `Cell.Admits`: what stands for a cell, and the byte that is written for it;
* `Spells`: a string of bytes that stands for a row of cells, `spells_append_iff`;
* `wire`: the bytes that are written, `spells_wire`, and where they differ from other bytes for the
  same cells, `getElem_of_spells`;
* `Scalar.cells`, `Scalar.Writable`, `Scalar.Within`: the cells of a scalar, the scalars that have a
  wire form, and those that a decoder takes.
-/

namespace MessageWire

/-- A byte of a wire form, by what it is there for. -/
inductive Cell
  | content (b : UInt8)
  | truth (v : Bool)
  | terminator
  deriving DecidableEq, Repr

namespace Cell

/-- The byte that is written for a cell. -/
def byte : Cell → UInt8
  | content b => b
  | truth v => if v then 1 else 0
  | terminator => MessageWire.terminator

/-- The bytes that are read as a cell: the very content, zero or not zero, anything. -/
def Admits : Cell → UInt8 → Prop
  | content b, c => c = b
  | truth v, c => (c != 0) = v
  | terminator, _ => True

instance : (c : Cell) → DecidablePred c.Admits
  | content b, c => inferInstanceAs (Decidable (c = b))
  | truth v, c => inferInstanceAs (Decidable ((c != 0) = v))
  | terminator, _ => isTrue trivial

theorem admits_byte (c : Cell) : c.Admits c.byte := by
  cases c with
  | content b => rfl
  | truth v => cases v <;> rfl
  | terminator => trivial

/-- **Another byte for a cell** is a different nonzero byte for a true boolean, or it stands at the
end of a text. -/
theorem eq_truth_or_eq_terminator {c : Cell} {b : UInt8} (h : c.Admits b) (hb : c.byte ≠ b) :
    (c = truth true ∧ b ≠ 0) ∨ c = terminator := by
  cases c with
  | content a => exact absurd h.symm hb
  | truth v =>
    cases v with
    | false =>
      have h0 : b = 0 := by simpa [Admits] using h
      exact absurd h0.symm hb
    | true =>
      have h1 : b ≠ 0 := by simpa [Admits] using h
      exact Or.inl ⟨rfl, h1⟩
  | terminator => exact Or.inr rfl

/-- Cells that must be met exactly. -/
def contents (bs : Bytes) : List Cell := bs.map content

end Cell

open Cell

/-! ## Spelling -/

/-- The bytes stand for the cells, one for one. -/
def Spells (cs : List Cell) (bs : Bytes) : Prop := List.Forall₂ Admits cs bs

/-- The bytes that are written for a row of cells. -/
def wire (cs : List Cell) : Bytes := cs.map byte

instance (cs : List Cell) (bs : Bytes) : Decidable (Spells cs bs) :=
  inferInstanceAs (Decidable (List.Forall₂ Admits cs bs))

theorem Spells.length_eq {cs : List Cell} {bs : Bytes} (h : Spells cs bs) :
    cs.length = bs.length := List.Forall₂.length_eq h

@[simp] theorem spells_nil_iff {bs : Bytes} : Spells [] bs ↔ bs = [] := List.forall₂_nil_left_iff

@[simp] theorem spells_singleton_iff {c : Cell} {bs : Bytes} :
    Spells [c] bs ↔ ∃ b, c.Admits b ∧ bs = [b] := by
  simp [Spells, List.forall₂_cons_left_iff]

/-- **Spelling splits where the cells do.** -/
theorem spells_append_iff {cs ds : List Cell} {bs : Bytes} :
    Spells (cs ++ ds) bs ↔ ∃ us vs, bs = us ++ vs ∧ Spells cs us ∧ Spells ds vs := by
  induction cs generalizing bs with
  | nil => simp
  | cons c cs ih =>
    simp only [Spells, List.cons_append, List.forall₂_cons_left_iff] at ih ⊢
    constructor
    · rintro ⟨b, bs, hb, h, rfl⟩
      obtain ⟨us, vs, rfl, hu, hv⟩ := ih.mp h
      exact ⟨b :: us, vs, rfl, ⟨b, us, hb, hu, rfl⟩, hv⟩
    · rintro ⟨-, vs, rfl, ⟨b, us, hb, hu, rfl⟩, hv⟩
      exact ⟨b, us ++ vs, hb, ih.mpr ⟨us, vs, rfl, hu, hv⟩, rfl⟩

@[simp] theorem spells_contents_iff {bs us : Bytes} : Spells (contents bs) us ↔ us = bs := by
  rw [Spells, contents, List.forall₂_map_left_iff]
  change List.Forall₂ (fun b c => c = b) bs us ↔ us = bs
  constructor
  · intro h
    have := h.flip
    rwa [List.forall₂_eq_eq_eq] at this
  · rintro rfl
    exact List.forall₂_same.mpr fun b _ => rfl

/-- What is written for a row of cells stands for it. -/
theorem spells_wire (cs : List Cell) : Spells cs (wire cs) :=
  List.forall₂_map_right_iff.mpr (List.forall₂_same.mpr fun c _ => c.admits_byte)

@[simp] theorem length_wire (cs : List Cell) : (wire cs).length = cs.length := by simp [wire]

@[simp] theorem wire_append (cs ds : List Cell) : wire (cs ++ ds) = wire cs ++ wire ds := by
  simp [wire]

@[simp] theorem wire_contents (bs : Bytes) : wire (contents bs) = bs := by
  simp [wire, contents, Function.comp_def, byte]

/-- **Where other bytes for the same cells differ from those that are written.** -/
theorem getElem_of_spells {cs : List Cell} {bs : Bytes} (h : Spells cs bs) {i : Nat}
    (hi : i < bs.length) (hw : i < (wire cs).length) (hne : (wire cs)[i] ≠ bs[i]) :
    (cs[i]? = some (truth true) ∧ bs[i] ≠ 0 ∧ (wire cs)[i] = 1) ∨
      (cs[i]? = some .terminator ∧ (wire cs)[i] = 0) := by
  have hc : i < cs.length := by simpa using hw
  have hb : (wire cs)[i] = cs[i].byte := by simp [wire]
  rw [hb] at hne ⊢
  rw [List.getElem?_eq_getElem hc]
  rcases eq_truth_or_eq_terminator (h.get hc hi) hne with ⟨e, h0⟩ | e
  · left
    exact ⟨congrArg some e, h0, by rw [show cs[i] = truth true from e]; rfl⟩
  · right
    exact ⟨congrArg some e, by rw [show cs[i] = .terminator from e]; rfl⟩

/-! ## Scalars -/

theorem findIdx?_terminator_eq_none_iff {bs : Bytes} :
    bs.findIdx? (· == MessageWire.terminator) = none ↔ MessageWire.terminator ∉ bs := by
  rw [List.findIdx?_eq_none_iff]
  constructor
  · intro h hm
    simpa using h _ hm
  · intro h b hb
    simpa using fun e : b = MessageWire.terminator => h (e ▸ hb)

namespace Scalar

/-- The cells of a scalar: a big-endian word, a truth value, or a text between its length and its
end. -/
def cells : Scalar → List Cell
  | int8 v => contents (BigEndian.encode 1 v.toBitVec.toNat)
  | int16 v => contents (BigEndian.encode 2 v.toBitVec.toNat)
  | int32 v => contents (BigEndian.encode 4 v.toBitVec.toNat)
  | int64 v => contents (BigEndian.encode 8 v.toBitVec.toNat)
  | float32 v => contents (BigEndian.encode 4 v.bits.toNat)
  | float64 v => contents (BigEndian.encode 8 v.bits.toNat)
  | boolean v => [truth v]
  | byte v => contents [v]
  | text s =>
    contents (BigEndian.encode textLengthSize ((utf8 s).length + 1)) ++ contents (utf8 s) ++
      [.terminator]

/-- A text has a wire form if it holds no terminator and its length, the terminator included, is a
signed word of 32 bits. -/
def Writable : Scalar → Prop
  | text s => MessageWire.terminator ∉ utf8 s ∧ (utf8 s).length ≤ 2 ^ 31 - 2
  | _ => True

instance : DecidablePred Writable := fun v => by unfold Writable; split <;> infer_instance

/-- The content of a text is no longer than the limits allow. -/
def Within (limits : Limits) : Scalar → Prop
  | text s => (utf8 s).length ≤ limits.maxTextLength.toNat
  | _ => True

instance (limits : Limits) : DecidablePred (Within limits) := fun v => by
  unfold Within; split <;> infer_instance

/-- No text that has a wire form is too long for the greatest limits. -/
theorem Writable.within_unlimited {v : Scalar} (h : v.Writable) : v.Within .unlimited := by
  cases v with
  | text s =>
    have hmax : Limits.unlimited.maxTextLength.toNat = 2 ^ 64 - 1 := rfl
    exact Nat.le_trans h.2 (by omega)
  | _ => trivial

end Scalar

end MessageWire
