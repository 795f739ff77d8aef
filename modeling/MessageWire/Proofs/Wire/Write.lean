import MessageWire.Proofs.Wire.Action
import MessageWire.Proofs.Wire.Cell
import MessageWire.Wire.Write

/-!
# Writing to a sink that is never full

* `Encoder.Open`, `Encoder.put`: such a sink, and the encoder after some bytes more;
* `Write.all_eq`, `Write.word_eq`: nothing that is written is lost;
* `Write.scalar_eq`, `Write.scalar_error`: a scalar with a wire form leaves the bytes of its cells,
  any other is refused with nothing written.
-/

namespace MessageWire

namespace Encoder

/-- The sink is never full, and flushing it does not fail. -/
def Open (e : Encoder) : Prop := e.sink.capacity? = none ∧ e.sink.flushFault? = none

/-- The encoder after a complete write of `bs`. -/
def put (e : Encoder) (bs : Bytes) : Encoder :=
  ⟨{ e.sink with held := e.sink.held ++ bs }, e.position + bs.length⟩

theorem open_new_memory : (new .memory).Open := ⟨rfl, rfl⟩

theorem Open.put {e : Encoder} (h : e.Open) (bs : Bytes) : (e.put bs).Open := h

@[simp] theorem put_nil (e : Encoder) : e.put [] = e := by simp [put]

@[simp] theorem put_put (e : Encoder) (as bs : Bytes) : (e.put as).put bs = e.put (as ++ bs) := by
  have h : e.sink.held ++ as ++ bs = e.sink.held ++ (as ++ bs) := Array.ext' (by simp)
  simp only [put, List.length_append, ← Nat.add_assoc, h]

end Encoder

namespace Write

variable {e : Encoder}

theorem all_eq (h : e.Open) (bs : Bytes) : all bs e = .ok () (e.put bs) := by
  simp [all, Sink.write, Sink.room, h.1, Encoder.put]

theorem word_eq (h : e.Open) (w k : Nat) : word w k e = .ok () (e.put (BigEndian.encode w k)) :=
  all_eq h _

theorem flush_eq (h : e.Open) : flush e = .ok () e := by rw [flush, h.2]

/-! ## Texts -/

/-- The two reasons to refuse a text come before its length, its content and its terminator. -/
theorem text_apply (s : String) (e : Encoder) :
    text s e = match (utf8 s).findIdx? (· == terminator) with
      | some i => .error (.embeddedNul (e.position + textLengthSize + i)) e
      | none =>
        if 2 ^ 31 ≤ (utf8 s).length + 1 then
          .error (.invalidLength .text (utf8 s).length e.position) e
        else (do
          word textLengthSize ((utf8 s).length + 1)
          all (utf8 s)
          all [terminator] : Write Unit) e := by
  change (match (utf8 s).findIdx? (· == terminator) with
    | some i => throw (.embeddedNul (e.position + textLengthSize + i))
    | none => do
      if 2 ^ 31 ≤ (utf8 s).length + 1 then
        throw (.invalidLength .text (utf8 s).length e.position)
      word textLengthSize ((utf8 s).length + 1)
      all (utf8 s)
      all [terminator] : Write Unit) e = _
  cases (utf8 s).findIdx? (· == terminator) with
  | some i => rfl
  | none =>
    by_cases hl : 2 ^ 31 ≤ (utf8 s).length + 1
    · simp only [if_pos hl]
      rfl
    · simp only [if_neg hl]

theorem text_eq (h : e.Open) {s : String} (hs : (Scalar.text s).Writable) :
    text s e = .ok () (e.put (wire (Scalar.text s).cells)) := by
  obtain ⟨hn, hl⟩ := hs
  rw [text_apply, findIdx?_terminator_eq_none_iff.mpr hn]
  dsimp only
  rw [if_neg (by omega), bind_ok (word_eq h _ _), bind_ok (all_eq (h.put _) _),
    all_eq ((h.put _).put _)]
  simp [Scalar.cells, wire, Cell.contents, Cell.byte, Function.comp_def]

/-- **A text without a wire form is refused before anything is written:** for its first terminator,
or else for its length. -/
theorem text_error {s : String} (hs : ¬ (Scalar.text s).Writable) :
    (∃ i, (utf8 s).findIdx? (· == terminator) = some i ∧
      text s e = .error (.embeddedNul (e.position + textLengthSize + i)) e) ∨
    (terminator ∉ utf8 s ∧ 2 ^ 31 ≤ (utf8 s).length + 1 ∧
      text s e = .error (.invalidLength .text (utf8 s).length e.position) e) := by
  rw [text_apply]
  cases hf : (utf8 s).findIdx? (· == terminator) with
  | some i => exact Or.inl ⟨i, rfl, rfl⟩
  | none =>
    have hn := findIdx?_terminator_eq_none_iff.mp hf
    have hl : 2 ^ 31 ≤ (utf8 s).length + 1 := by
      by_contra hc
      exact hs ⟨hn, by omega⟩
    exact Or.inr ⟨hn, hl, if_pos hl⟩

/-! ## Scalars -/

/-- **A scalar that is writable leaves the bytes of its cells.** -/
theorem scalar_eq (h : e.Open) {v : Scalar} (hv : v.Writable) :
    scalar v e = .ok () (e.put (wire v.cells)) := by
  cases v with
  | text s => exact text_eq h hv
  | boolean v => cases v <;> exact word_eq h _ _
  | byte v =>
    rw [scalar, word_eq h, Scalar.cells, wire_contents]
    simp [BigEndian.encode]
  | _ => rw [scalar, word_eq h, Scalar.cells, wire_contents]

/-- **A scalar that is not writable leaves nothing.** -/
theorem scalar_error {v : Scalar} (hv : ¬ v.Writable) : ∃ err, scalar v e = .error err e := by
  cases v with
  | text s =>
    obtain ⟨i, -, h⟩ | ⟨-, -, h⟩ := text_error (e := e) hv
    · exact ⟨_, h⟩
    · exact ⟨_, h⟩
  | _ => exact absurd trivial hv

end Write

end MessageWire
