import Mathlib.Data.FinEnum
import MessageWire.Schema.MemberHash

/-!
# What the member hash cannot miss

A step of the member hash loses nothing of the value that it starts from and nothing of its byte.
So what has come apart stays apart whatever follows, and a single byte is enough to come apart.

* `MemberHash.shifts_injective`, **`MemberHash.update_bijective`**: a step permutes the words;
* `MemberHash.run_injective`, `MemberHash.seed_append_inj`: steps over the same bytes;
* `MemberHash.DifferOnce`, `MemberHash.Apart`: bytes that differ in one place, `Apart.run_ne`;
* `MemberHash.Retouched`: lists of fields of which a name or a size differs in one byte,
  `Retouched.apart`;
* **`MemberHash.seed_sensitive`**.
-/

namespace MessageWire.MemberHash

/-! ## One step -/

/-- The low byte of the two shifts holds the bits below the sign. Above it stands a bit each, marked
with the sign. -/
theorem getLsbD_shifts (x : BitVec 64) {i : Nat} (hi : i < 64) :
    ((x <<< 8) ^^^ x.sshiftRight 55).getLsbD i =
      if i < 8 then x.getLsbD (55 + i) else (x.getLsbD (i - 8) ^^ x.msb) := by
  rw [BitVec.getLsbD_xor, BitVec.getLsbD_shiftLeft, BitVec.getLsbD_sshiftRight]
  by_cases h8 : i < 8
  · simp [h8, hi, show 55 + i < 64 by omega]
  · obtain rfl | h9 : i = 8 ∨ 9 ≤ i := by omega
    · rfl
    · simp [h8, hi, show ¬ 55 + i < 64 by omega]

/-- **The two shifts lose no bit.** The low byte shows the bits below the sign; the lowest of these
and the top bit show the sign; and the sign shows the rest. -/
theorem shifts_injective :
    Function.Injective fun x : BitVec 64 => (x <<< 8) ^^^ x.sshiftRight 55 := by
  intro x y h
  have bit (i : Nat) (hi : i < 64) :
      (if i < 8 then x.getLsbD (55 + i) else (x.getLsbD (i - 8) ^^ x.msb)) =
        if i < 8 then y.getLsbD (55 + i) else (y.getLsbD (i - 8) ^^ y.msb) := by
    rw [← getLsbD_shifts x hi, ← getLsbD_shifts y hi]
    exact congrArg (·.getLsbD i) h
  have below (i : Nat) (hi : i < 8) : x.getLsbD (55 + i) = y.getLsbD (55 + i) := by
    simpa only [if_pos hi] using bit i (by omega)
  have sign : x.msb = y.msb := by
    have h63 : (x.getLsbD 55 ^^ x.msb) = (y.getLsbD 55 ^^ y.msb) := bit 63 (by decide)
    rw [below 0 (by decide)] at h63
    exact Bool.xor_right_inj.mp h63
  have rest (i : Nat) (hi : i < 56) : x.getLsbD i = y.getLsbD i := by
    have h8 := bit (i + 8) (by omega)
    rw [if_neg (by omega), if_neg (by omega), Nat.add_sub_cancel, sign] at h8
    exact Bool.xor_left_inj.mp h8
  apply BitVec.eq_of_getLsbD_eq
  intro i hi
  by_cases hrest : i < 56
  · exact rest i hrest
  · obtain ⟨j, rfl⟩ : ∃ j, i = 55 + j := ⟨i - 55, by omega⟩
    obtain rfl | hj : j = 8 ∨ j < 8 := by omega
    · exact sign
    · exact below j hj

theorem update_injective (b : UInt8) : Function.Injective (update · b) := by
  intro v w h
  have hshifts : (v <<< 8) ^^^ (v >>> 55) = (w <<< 8) ^^^ (w >>> 55) :=
    (Int64.add_left_inj _).mp h
  exact Int64.toBitVec_inj.mp (shifts_injective (congrArg Int64.toBitVec hshifts))

/-- A byte is told from every other by its step. -/
theorem update_injective_right (v : Int64) : Function.Injective (update v) := by
  intro b c h
  have hbyte : b.toInt8.toInt64 = c.toInt8.toInt64 := (Int64.add_right_inj _).mp h
  have hint : b.toInt8.toInt = c.toInt8.toInt := by
    rw [← Int8.toInt_toInt64, ← Int8.toInt_toInt64, hbyte]
  have hbits : b.toInt8.toBitVec = c.toInt8.toBitVec := Int8.toBitVec_inj.mpr (Int8.toInt_inj.mp hint)
  exact UInt8.toBitVec_inj.mp hbits

/-- **A step permutes the words:** each of them comes from exactly one. -/
theorem update_bijective (b : UInt8) : Function.Bijective (update · b) :=
  Finite.injective_iff_bijective.mp (update_injective b)

/-! ## Steps over the same bytes -/

theorem run_append (v : Int64) (bs cs : Bytes) : run v (bs ++ cs) = run (run v bs) cs :=
  List.foldl_append

theorem run_cons (v : Int64) (b : UInt8) (bs : Bytes) : run v (b :: bs) = run (update v b) bs := rfl

/-- **Values that are apart stay apart** over the same bytes. -/
theorem run_injective (bs : Bytes) : Function.Injective (run · bs) := by
  induction bs with
  | nil => exact Function.injective_id
  | cons b bs ih => exact ih.comp (update_injective b)

variable {n : Nat}

theorem seed_inj {m : Nat} {fs : List (Field n)} {gs : List (Field m)} :
    seed fs = seed gs ↔ run start (stream fs) = run start (stream gs) :=
  ⟨congrArg Int64.ofUInt64, congrArg Int64.toUInt64⟩

/-- Fields that are added to two lists make no difference. -/
theorem seed_append_inj {ps qs : List (Field n)} (fs : List (Field n)) :
    seed (ps ++ fs) = seed (qs ++ fs) ↔ seed ps = seed qs := by
  rw [seed_inj, seed_inj]
  unfold stream
  rw [List.flatMap_append, List.flatMap_append, run_append, run_append]
  exact (run_injective _).eq_iff

/-! ## One byte -/

/-- **Bytes that differ once:** there are as many, and they differ at exactly one place. -/
def DifferOnce (bs cs : Bytes) : Prop := bs.length = cs.length ∧ ∃! i : Nat, bs[i]? ≠ cs[i]?

/-- The bytes are the same in front of a byte and behind it. -/
def Apart (bs cs : Bytes) : Prop :=
  ∃ front b c back, b ≠ c ∧ bs = front ++ b :: back ∧ cs = front ++ c :: back

namespace Apart

variable {bs cs : Bytes}

theorem of_differOnce (h : DifferOnce bs cs) : Apart bs cs := by
  obtain ⟨hl, i, hi, honly⟩ := h
  have hsame (j : Nat) (hj : j ≠ i) : bs[j]? = cs[j]? := by
    by_contra hne
    exact hj (honly j hne)
  have hbs : i < bs.length := by
    by_contra hle
    exact hi (by rw [List.getElem?_eq_none (by omega), List.getElem?_eq_none (by omega)])
  have hcs : i < cs.length := hl ▸ hbs
  refine ⟨bs.take i, bs[i], cs[i], bs.drop (i + 1), ?_, ?_, ?_⟩
  · intro he
    exact hi (by rw [List.getElem?_eq_getElem hbs, List.getElem?_eq_getElem hcs, he])
  · rw [List.getElem_cons_drop, List.take_append_drop]
  · have hfront : bs.take i = cs.take i := by
      apply List.ext_getElem?
      intro j
      by_cases hj : j < i
      · rw [List.getElem?_take_of_lt hj, List.getElem?_take_of_lt hj, hsame j (by omega)]
      · rw [List.getElem?_take_eq_none (by omega), List.getElem?_take_eq_none (by omega)]
    have hback : bs.drop (i + 1) = cs.drop (i + 1) := by
      apply List.ext_getElem?
      intro j
      rw [List.getElem?_drop, List.getElem?_drop, hsame (i + 1 + j) (by omega)]
    rw [hfront, hback, List.getElem_cons_drop, List.take_append_drop]

theorem length_eq (h : Apart bs cs) : bs.length = cs.length := by
  obtain ⟨front, b, c, back, -, rfl, rfl⟩ := h
  simp

/-- Bytes around them do not bring them together. -/
theorem around (h : Apart bs cs) (us vs : Bytes) : Apart (us ++ bs ++ vs) (us ++ cs ++ vs) := by
  obtain ⟨front, b, c, back, hne, rfl, rfl⟩ := h
  exact ⟨us ++ front, b, c, back ++ vs, hne, by simp, by simp⟩

/-- **One byte is enough**, whatever follows. -/
theorem run_ne (h : Apart bs cs) (v : Int64) : run v bs ≠ run v cs := by
  obtain ⟨front, b, c, back, hne, rfl, rfl⟩ := h
  rw [run_append, run_append, run_cons, run_cons]
  exact fun he => hne (update_injective_right _ (run_injective back he))

/-- Texts of the same length come with the same length. -/
theorem text {s t : String} (h : Apart (utf8 s) (utf8 t)) :
    Apart (MemberHash.text s) (MemberHash.text t) := by
  have := h.around [UInt8.ofNat (utf8 s).length] []
  rw [MemberHash.text, MemberHash.text, ← h.length_eq]
  simpa using this

end Apart

/-! ## Lists of fields -/

/-- The byte of the mode of a dimension. -/
def mode : Extent → UInt8
  | .fixed _ => 0
  | .counted _ => 1

theorem extent_eq (x : Extent) : extent x = mode x :: text x.text := by cases x <;> rfl

/-- The bytes of an innermost kind. The schema of a message has none. -/
def leaf : Kind n → Bytes
  | .primitive p => text p.name
  | _ => []

theorem field_eq (f : Field n) :
    field f = text f.name ++ leaf f.kind.leaf ++
      UInt8.ofNat f.kind.extents.length :: f.kind.extents.flatMap extent := rfl

/-- **Fields that differ in one byte:** in that of a name, or in that of the size of a dimension,
be it a number or the name of a field. -/
inductive FieldRetouched (f g : Field n) : Prop
  | renamed : DifferOnce (utf8 f.name) (utf8 g.name) → f.kind = g.kind → FieldRetouched f g
  | resized (outer inner : List Extent) (x y : Extent) :
      f.name = g.name → f.kind.leaf = g.kind.leaf → f.kind.extents = outer ++ x :: inner →
        g.kind.extents = outer ++ y :: inner → mode x = mode y →
          DifferOnce (utf8 x.text) (utf8 y.text) → FieldRetouched f g

/-- **Lists of fields that differ in one byte:** all fields but one are the same. -/
def Retouched (fs gs : List (Field n)) : Prop :=
  ∃ front f g back, FieldRetouched f g ∧ fs = front ++ f :: back ∧ gs = front ++ g :: back

theorem FieldRetouched.apart {f g : Field n} (h : FieldRetouched f g) :
    Apart (field f) (field g) := by
  rw [field_eq, field_eq]
  cases h with
  | renamed hname hkind =>
    rw [hkind, List.append_assoc, List.append_assoc]
    exact (Apart.text (.of_differOnce hname)).around [] _
  | resized outer inner x y hname hleaf hf hg hmode hsize =>
    have hextent : Apart (extent x) (extent y) := by
      have := (Apart.text (.of_differOnce hsize)).around [mode x] []
      rw [extent_eq, extent_eq, ← hmode]
      simpa using this
    have := hextent.around (text f.name ++ leaf f.kind.leaf ++
      UInt8.ofNat (outer.length + (inner.length + 1)) :: outer.flatMap extent)
      (inner.flatMap extent)
    rw [← hname, ← hleaf, hf, hg]
    simpa using this

/-- **Lists that differ in one byte are described by bytes that do.** -/
theorem Retouched.apart {fs gs : List (Field n)} (h : Retouched fs gs) :
    Apart (stream fs) (stream gs) := by
  obtain ⟨front, f, g, back, hfg, rfl, rfl⟩ := h
  simpa [stream] using hfg.apart.around (front.flatMap field) (back.flatMap field)

/-! ## Seeds -/

/-- **What the member hash cannot miss.** Every step permutes the words, so lists of fields whose
seeds differ still differ in their seeds with the same fields behind them; and lists that differ in
one byte of a name or of the size of a dimension have different seeds. -/
theorem seed_sensitive :
    (∀ b, Function.Bijective (update · b)) ∧
    ∀ {n : Nat},
      (∀ ps qs fs : List (Field n), seed ps ≠ seed qs → seed (ps ++ fs) ≠ seed (qs ++ fs)) ∧
      ∀ fs gs : List (Field n), Retouched fs gs → seed fs ≠ seed gs := by
  refine ⟨update_bijective, fun {n} => ⟨fun ps qs fs hne => ?_, fun fs gs h => ?_⟩⟩
  · rwa [ne_eq, seed_append_inj]
  · rw [ne_eq, seed_inj]
    exact h.apart.run_ne start

/-- A number of rows, or a mark. -/
def single (name : String) (p : Primitive) : Field 0 := ⟨name, .primitive p⟩

/-- Cells in rows, of as many columns as are given. -/
def grid (columns : UInt64) : Field 0 :=
  ⟨"cells", .array (.array (.primitive .byte) (.fixed columns)) (.counted "rows")⟩

/-- Another kind of mark in front of a grid, and a grid with one column less. -/
theorem seed_ne_of_grid :
    seed [single "mark" .int8, single "rows" .int32, grid 19] ≠
      seed [single "mark" .boolean, single "rows" .int32, grid 19] ∧
    seed [single "rows" .int32, grid 19, single "mark" .byte] ≠
      seed [single "rows" .int32, grid 18, single "mark" .byte] := by
  have hmark : seed [single "mark" .int8] ≠ seed [single "mark" .boolean] := by decide
  have hsize : DifferOnce (utf8 "19") (utf8 "18") := by
    refine ⟨rfl, 1, by decide, fun i hi => ?_⟩
    rcases i with _ | _ | i
    · exact absurd rfl hi
    · rfl
    · exact absurd rfl hi
  have hgrid : FieldRetouched (grid 19) (grid 18) :=
    .resized [.counted "rows"] [] (.fixed 19) (.fixed 18) rfl rfl rfl rfl rfl hsize
  exact ⟨seed_sensitive.2.1 _ _ [single "rows" .int32, grid 19] hmark,
    seed_sensitive.2.2 _ _ ⟨[single "rows" .int32], _, _, [single "mark" .byte], hgrid, rfl, rfl⟩⟩

end MessageWire.MemberHash
