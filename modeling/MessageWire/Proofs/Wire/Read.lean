import MessageWire.Proofs.Wire.Action
import MessageWire.Proofs.Wire.Cell
import MessageWire.Proofs.Wire.Source
import MessageWire.Wire.Read

/-!
# What a decoder reads from memory

An action on bytes in memory is described by the answers that it can give and by the cells that it
reads for each of them. The description is exact: the action succeeds on the bytes that spell the
cells of such an answer, whatever follows them, and on no others.

* `Decoder.facing`, `Decoder.moved`, `Decoder.levels`: the decoder in front of other bytes, at
  another offset, and the levels that it may still open;
* `Read.fixed_facing`, `Read.content_facing`: the two ways to take bytes;
* `Reads`: the description, `Reads.bind`, `Reads.times`, `Reads.level`;
* **`reads_text`**, **`reads_scalar`**: the forms on the wire.
-/

namespace MessageWire

namespace Decoder

/-- The decoder in front of other bytes, which are in memory. -/
def facing (d : Decoder) (bs : Bytes) : Decoder := { d with source := .memory bs }

/-- The decoder `k` bytes further on. -/
def moved (d : Decoder) (k : Nat) : Decoder := { d with position := d.position + k }

/-- The decoder one level further in. -/
def deeper (d : Decoder) : Decoder := { d with depth := d.depth + 1 }

/-- The decoder one level further out, if a level is open. -/
def shallower (d : Decoder) : Decoder := { d with depth := d.depth - 1 }

/-- The levels that may still be opened. -/
def levels (d : Decoder) : Nat := d.limits.maxDepth.toNat - d.depth

variable (d : Decoder) (k l : Nat)

@[simp] theorem position_moved : (d.moved k).position = d.position + k := rfl
@[simp] theorem limits_deeper : d.deeper.limits = d.limits := rfl
@[simp] theorem levels_deeper : d.deeper.levels = d.levels - 1 := Nat.sub_add_eq ..

@[simp] theorem moved_moved : (d.moved k).moved l = d.moved (k + l) := by
  simp [moved, Nat.add_assoc]

end Decoder

/-! ## Bytes -/

namespace Read

/-- Bytes that must be complete are all taken, or the rest is used up and the offset stays. -/
theorem fixed_facing (d : Decoder) (k : Nat) (bs : Bytes) :
    fixed k (d.facing bs) =
      if k ≤ bs.length then .ok (bs.take k) ((d.moved k).facing (bs.drop k))
      else .error (.truncated d.position k) (d.facing []) := by
  simp only [fixed, Decoder.facing, Source.exactly_memory]
  by_cases h : k ≤ bs.length
  · rw [if_pos h, if_pos h]
    rfl
  · rw [if_neg h, if_neg h]
    rfl

/-- The bytes of a content are all taken, or the offset is moved to the end of the input. -/
theorem content_facing (d : Decoder) (k : Nat) (bs : Bytes) :
    content k (d.facing bs) =
      if k ≤ bs.length then .ok (bs.take k) ((d.moved k).facing (bs.drop k))
      else .error (.truncated (d.position + bs.length) (k - bs.length))
        ((d.moved bs.length).facing []) := by
  simp only [content, Decoder.facing, Source.upTo_memory, List.length_take]
  by_cases h : k ≤ bs.length
  · rw [if_neg (by omega), if_pos h, Nat.min_eq_left h]
    rfl
  · rw [if_pos (by omega), if_neg h, Nat.min_eq_right (by omega), List.drop_of_length_le (by omega)]
    rfl

theorem byte_facing (d : Decoder) (bs : Bytes) :
    byte (d.facing bs) = match bs with
      | [] => .error (.truncated d.position 1) (d.facing [])
      | b :: rest => .ok b ((d.moved 1).facing rest) := by
  have e : byte = fixed 1 >>= fun us => pure (.ofNat (BigEndian.decode us)) := by
    rw [byte, word, bind_assoc]
    rfl
  have h := fixed_facing d 1 bs
  rw [e]
  cases bs with
  | nil => exact bind_error h
  | cons b rest =>
    rw [if_pos (by simp)] at h
    refine (bind_ok h).trans ?_
    simp [BigEndian.decode]

/-- A level is opened unless there are no more levels. -/
theorem enter_apply (d : Decoder) :
    enter d = if 0 < d.levels then .ok () d.deeper else .error (.tooDeep d.limits.maxDepth) d := by
  change (if _ then _ else _ : Read Unit) d = _
  by_cases h : 0 < d.levels
  · have hd : ¬ d.limits.maxDepth.toNat ≤ d.depth := Nat.not_le.mpr (Nat.sub_pos_iff_lt.mp h)
    rw [if_pos h, if_neg hd]
    rfl
  · have hd : d.limits.maxDepth.toNat ≤ d.depth :=
      Nat.sub_eq_zero_iff_le.mp (Nat.eq_zero_of_not_pos h)
    rw [if_neg h, if_pos hd]
    rfl

/-- A level is opened around an action and closed behind it, unless there are no more levels. -/
theorem level_apply {α : Type} (act : Read α) (d : Decoder) :
    level act d =
      if 0 < d.levels then match act d.deeper with
        | .ok a d' => .ok a d'.shallower
        | .error e d' => .error e d'.shallower
      else .error (.tooDeep d.limits.maxDepth) d := by
  have he := enter_apply d
  split_ifs at he ⊢
  · exact bind_ok he
  · exact bind_error he

theorem level_facing {α : Type} (act : Read α) (d : Decoder) (bs : Bytes) :
    level act (d.facing bs) =
      if 0 < d.levels then match act (d.deeper.facing bs) with
        | .ok a d' => .ok a d'.shallower
        | .error e d' => .error e d'.shallower
      else .error (.tooDeep d.limits.maxDepth) (d.facing bs) := level_apply act (d.facing bs)

theorem run_of_ok {α : Type} {act : Read α} {L : Limits} {bs : Bytes} {a : α} {d' : Decoder}
    (h : act ((Decoder.new (.memory []) L).facing bs) = .ok a d') :
    run (.memory bs) L act = (.ok a, d'.source) := by
  have hn : (Decoder.new (.memory []) L).facing bs = .new (.memory bs) L := rfl
  rw [hn] at h
  rw [run, h]

theorem run_of_error {α : Type} {act : Read α} {L : Limits} {bs : Bytes} {e : WireError}
    {d' : Decoder} (h : act ((Decoder.new (.memory []) L).facing bs) = .error e d') :
    run (.memory bs) L act = (.error e, d'.source) := by
  have hn : (Decoder.new (.memory []) L).facing bs = .new (.memory bs) L := rfl
  rw [hn] at h
  rw [run, h]

end Read

/-! ## Descriptions -/

variable {α β : Type}

/-- **What an action reads:** on bytes in memory it answers exactly the `a` with `P a`, under the
limits and with the levels that it has, from bytes that spell the cells of `a`, and it stops behind
them. -/
def Reads (act : Read α) (cells : α → List Cell) (P : Limits → Nat → α → Prop) : Prop :=
  ∀ (d : Decoder) (bs : Bytes) (a : α) (d' : Decoder),
    act (d.facing bs) = .ok a d' ↔
      P d.limits d.levels a ∧ ∃ used rest, bs = used ++ rest ∧ Spells (cells a) used ∧
        d' = (d.moved used.length).facing rest

namespace Reads

variable {act : Read α} {cells : α → List Cell} {P : Limits → Nat → α → Prop}

/-- A description by other words. -/
theorem congr (h : Reads act cells P) {cells' : α → List Cell} {P' : Limits → Nat → α → Prop}
    (hc : ∀ L r a, P L r a → cells' a = cells a) (hP : ∀ L r a, P' L r a ↔ P L r a) :
    Reads act cells' P' := by
  intro d bs a d'
  rw [h, hP]
  refine and_congr_right fun ha => ?_
  rw [hc _ _ _ ha]

theorem pure (b : α) : Reads (Pure.pure b) (fun _ => []) fun _ _ a => a = b := by
  intro d bs a d'
  rw [pure_apply]
  constructor
  · intro h
    cases h
    exact ⟨rfl, [], bs, rfl, spells_nil_iff.mpr rfl, rfl⟩
  · rintro ⟨rfl, used, rest, rfl, hs, rfl⟩
    rw [spells_nil_iff.mp hs]
    rfl

theorem throw (e : WireError) (hP : ∀ L r a, ¬ P L r a) : Reads (throw e) cells P := by
  intro d bs a d'
  rw [throw_apply]
  constructor
  · intro h
    cases h
  · rintro ⟨h, -⟩
    exact (hP _ _ _ h).elim

/-- **Two actions in sequence** read the cells of the first answer and those of the second. -/
theorem bind {next : α → Read β} {cells' : α → β → List Cell} {Q : α → Limits → Nat → β → Prop}
    {cells'' : β → List Cell} {R : Limits → Nat → β → Prop} (h : Reads act cells P)
    (hn : ∀ a, Reads (next a) (cells' a) (Q a))
    (hc : ∀ L r a b, P L r a → Q a L r b → cells'' b = cells a ++ cells' a b)
    (hR : ∀ L r b, R L r b ↔ ∃ a, P L r a ∧ Q a L r b) : Reads (act >>= next) cells'' R := by
  intro d bs b d'
  rw [bind_eq_ok_iff, hR]
  constructor
  · rintro ⟨a, d₁, ha, hb⟩
    obtain ⟨hP, us, r₁, rfl, hu, rfl⟩ := (h d bs a d₁).mp ha
    obtain ⟨hQ, vs, rest, rfl, hv, rfl⟩ := (hn a _ r₁ b d').mp hb
    refine ⟨⟨a, hP, hQ⟩, us ++ vs, rest, (List.append_assoc ..).symm, ?_, ?_⟩
    · rw [hc _ _ _ _ hP hQ, spells_append_iff]
      exact ⟨us, vs, rfl, hu, hv⟩
    · rw [Decoder.moved_moved, List.length_append]
  · rintro ⟨⟨a, hP, hQ⟩, used, rest, rfl, hs, rfl⟩
    rw [hc _ _ _ _ hP hQ, spells_append_iff] at hs
    obtain ⟨us, vs, rfl, hu, hv⟩ := hs
    refine ⟨a, (d.moved us.length).facing (vs ++ rest), ?_, ?_⟩
    · exact (h d _ a _).mpr ⟨hP, us, vs ++ rest, List.append_assoc .., hu, rfl⟩
    · refine (hn a _ _ b _).mpr ⟨hQ, vs, rest, rfl, hv, ?_⟩
      rw [Decoder.moved_moved, List.length_append]

/-- An action whose answer is put into another form. -/
theorem map (f : α → β) {cells' : β → List Cell} {Q : Limits → Nat → β → Prop}
    (h : Reads act cells P) (hc : ∀ L r a, P L r a → cells' (f a) = cells a)
    (hQ : ∀ L r b, Q L r b ↔ ∃ a, P L r a ∧ b = f a) :
    Reads (act >>= fun a => Pure.pure (f a)) cells' Q := by
  refine h.bind (fun a => pure (f a)) (fun L r a b ha hb => ?_) hQ
  rw [hb, hc L r a ha, List.append_nil]

/-- An action that first looks at the offset. -/
theorem position {next : Nat → Read α} (h : ∀ p, Reads (next p) cells P) :
    Reads (Read.position >>= next) cells P := fun d => h d.position d

/-- An action that first looks at the limits. -/
theorem limits {next : Decoder → Read α}
    (h : ∀ d, Reads (next d) cells fun _ r a => P d.limits r a) : Reads (get >>= next) cells P :=
  fun d bs => h (d.facing bs) d bs

/-- An action that first looks at the levels. -/
theorem levels {next : Nat → Read α} {Q : Nat → Limits → Nat → α → Prop}
    (h : ∀ r, Reads (next r) cells (Q r)) (hP : ∀ L r a, P L r a ↔ Q r L r a) :
    Reads (Read.levels >>= next) cells P := by
  intro d bs a d'
  rw [hP]
  exact h d.levels d bs a d'

/-- An action that is refused under a condition. -/
theorem guard {c : Prop} [Decidable c] {bad : Read α} {e : WireError}
    (hbad : bad = MonadExcept.throw e)
    (h : Reads act cells P) :
    Reads (if c then bad else act) cells fun L r a => ¬ c ∧ P L r a := by
  by_cases hc : c
  · rw [if_pos hc, hbad]
    exact throw e fun _ _ _ h => h.1 hc
  · rw [if_neg hc]
    exact h.congr (fun _ _ _ _ => rfl) fun _ _ _ => and_iff_right hc

/-- **An action on a level of its own** needs the level, and may open one less inside. -/
theorem level (h : Reads act cells P) :
    Reads (Read.level act) cells fun L r a => 0 < r ∧ P L (r - 1) a := by
  intro d bs a d'
  have hd := h d.deeper bs a
  rw [Decoder.limits_deeper, Decoder.levels_deeper] at hd
  rw [Read.level_facing]
  by_cases hr : 0 < d.levels
  · rw [if_pos hr]
    constructor
    · intro ha
      cases hin : act (d.deeper.facing bs) with
      | ok b d₁ =>
        rw [hin] at ha
        cases ha
        obtain ⟨hP, used, rest, rfl, hs, rfl⟩ := (hd d₁).mp hin
        exact ⟨⟨hr, hP⟩, used, rest, rfl, hs, rfl⟩
      | error e d₁ =>
        rw [hin] at ha
        cases ha
    · rintro ⟨⟨-, hP⟩, used, rest, rfl, hs, rfl⟩
      rw [(hd _).mpr ⟨hP, used, rest, rfl, hs, rfl⟩]
      rfl
  · rw [if_neg hr]
    constructor
    · intro ha
      cases ha
    · rintro ⟨⟨h0, -⟩, -⟩
      exact absurd h0 hr

/-- **An action for every element of an array.** -/
theorem times (h : Reads act cells P) (k : Nat) :
    Reads (Read.times k act) (fun as => as.flatMap cells)
      fun L r as => as.length = k ∧ ∀ a ∈ as, P L r a := by
  induction k with
  | zero =>
    rw [Read.times_zero]
    refine (pure []).congr ?_ ?_
    · rintro L r as rfl
      rfl
    · intro L r as
      constructor
      · rintro ⟨h, -⟩
        exact List.length_eq_zero_iff.mp h
      · rintro rfl
        exact ⟨rfl, List.forall_mem_nil _⟩
  | succ k ih =>
    rw [Read.times_succ]
    have hn : ∀ a : α, Reads (Read.times k act >>= fun as => Pure.pure (a :: as))
        (fun as => as.tail.flatMap cells)
        fun L r as => ∃ bs, (bs.length = k ∧ ∀ b ∈ bs, P L r b) ∧ as = a :: bs :=
      fun a => ih.map (a :: ·) (fun _ _ _ _ => rfl) fun _ _ _ => Iff.rfl
    refine h.bind hn ?_ ?_
    · rintro L r a as - ⟨bs, -, rfl⟩
      rfl
    · intro L r as
      constructor
      · rintro ⟨hl, hP⟩
        obtain ⟨a, bs, rfl⟩ := List.exists_cons_of_length_eq_add_one hl
        rw [List.forall_mem_cons] at hP
        exact ⟨a, hP.1, bs, ⟨by simpa using hl, hP.2⟩, rfl⟩
      · rintro ⟨a, ha, bs, ⟨hl, hbs⟩, rfl⟩
        exact ⟨by simpa using hl, List.forall_mem_cons.mpr ⟨ha, hbs⟩⟩

/-- **A run on bytes in memory** answers what the action reads, and leaves what follows. -/
theorem run_eq_ok_iff (h : Reads act cells P) {L : Limits} {bs : Bytes} {a : α} {left : Source} :
    act.run (.memory bs) L = (.ok a, left) ↔
      P L L.maxDepth.toNat a ∧
        ∃ used rest, bs = used ++ rest ∧ Spells (cells a) used ∧ left = .memory rest := by
  have hd := h (.new (.memory []) L) bs a
  constructor
  · intro hr
    cases ha : act ((Decoder.new (.memory []) L).facing bs) with
    | ok b d' =>
      rw [Read.run_of_ok ha] at hr
      cases hr
      obtain ⟨hP, used, rest, rfl, hs, rfl⟩ := (hd d').mp ha
      exact ⟨hP, used, rest, rfl, hs, rfl⟩
    | error e d' =>
      rw [Read.run_of_error ha] at hr
      cases hr
  · rintro ⟨hP, used, rest, rfl, hs, rfl⟩
    exact Read.run_of_ok ((hd _).mpr ⟨hP, used, rest, rfl, hs, rfl⟩)

end Reads

/-! ## Bytes and words -/

theorem reads_fixed (k : Nat) : Reads (Read.fixed k) Cell.contents fun _ _ bs => bs.length = k := by
  intro d bs us d'
  rw [Read.fixed_facing]
  simp only [spells_contents_iff]
  constructor
  · intro h
    split_ifs at h with hk
    cases h
    have hl : (bs.take k).length = k := List.length_take_of_le hk
    refine ⟨hl, bs.take k, bs.drop k, (List.take_append_drop k bs).symm, rfl, ?_⟩
    rw [hl]
  · rintro ⟨rfl, used, rest, rfl, rfl, rfl⟩
    rw [if_pos (by simp), List.take_left, List.drop_left]

theorem reads_content (k : Nat) :
    Reads (Read.content k) Cell.contents fun _ _ bs => bs.length = k := by
  intro d bs us d'
  rw [← reads_fixed k d bs us d', Read.content_facing, Read.fixed_facing]
  by_cases hk : k ≤ bs.length
  · rw [if_pos hk, if_pos hk]
  · rw [if_neg hk, if_neg hk]
    constructor <;> intro h <;> cases h

/-- **A word in another form.** The two forms of the numbers below `256 ^ w` are inverse. -/
theorem reads_word (w : Nat) {f : Nat → α} {g : α → Nat} (hg : ∀ a, g a < 256 ^ w)
    (hfg : ∀ a, f (g a) = a) (hgf : ∀ k < 256 ^ w, g (f k) = k) :
    Reads (do return f (← Read.word w)) (fun a => Cell.contents (BigEndian.encode w (g a)))
      fun _ _ _ => True := by
  have e : (do return f (← Read.word w) : Read α) =
      Read.fixed w >>= fun bs => pure (f (BigEndian.decode bs)) := by
    rw [Read.word, bind_assoc]
    rfl
  rw [e]
  refine (reads_fixed w).map (fun bs => f (BigEndian.decode bs)) ?_ ?_
  · rintro L r bs rfl
    rw [hgf _ (BigEndian.decode_lt bs), BigEndian.encode_decode]
  · intro L r a
    refine iff_of_true trivial ⟨BigEndian.encode w (g a), BigEndian.length_encode .., ?_⟩
    rw [BigEndian.decode_encode, Nat.mod_eq_of_lt (hg a), hfg]

theorem reads_int8 :
    Reads Read.int8 (fun v => (Scalar.int8 v).cells) fun _ _ _ => True :=
  reads_word 1 (fun v => v.toBitVec.isLt) (by simp) fun k hk => by simp; omega

theorem reads_int16 :
    Reads Read.int16 (fun v => (Scalar.int16 v).cells) fun _ _ _ => True :=
  reads_word 2 (fun v => v.toBitVec.isLt) (by simp) fun k hk => by simp; omega

theorem reads_int32 :
    Reads Read.int32 (fun v => (Scalar.int32 v).cells) fun _ _ _ => True :=
  reads_word 4 (fun v => v.toBitVec.isLt) (by simp) fun k hk => by simp; omega

theorem reads_int64 :
    Reads Read.int64 (fun v => (Scalar.int64 v).cells) fun _ _ _ => True :=
  reads_word 8 (fun v => v.toBitVec.isLt) (by simp) fun k hk => by simp; omega

theorem reads_float32 :
    Reads Read.float32 (fun v => (Scalar.float32 v).cells) fun _ _ _ => True :=
  reads_word 4 (fun v => v.bits.toNat_lt) (by simp) fun k hk => by simp; omega

theorem reads_float64 :
    Reads Read.float64 (fun v => (Scalar.float64 v).cells) fun _ _ _ => True :=
  reads_word 8 (fun v => v.bits.toNat_lt) (by simp) fun k hk => by simp; omega

/-- **A single byte in another form.** -/
theorem reads_byte_map {f : UInt8 → α} {c : α → Cell} (h : ∀ a b, (c a).Admits b ↔ f b = a) :
    Reads (do return f (← Read.byte)) (fun a => [c a]) fun _ _ _ => True := by
  intro d bs a d'
  rw [bind_eq_ok_iff, Read.byte_facing]
  simp only [spells_singleton_iff, true_and]
  constructor
  · rintro ⟨b, d₁, hb, ha⟩
    cases bs with
    | nil => cases hb
    | cons b rest =>
      cases hb
      cases ha
      exact ⟨[b], rest, rfl, ⟨b, (h _ b).mpr rfl, rfl⟩, rfl⟩
  · rintro ⟨used, rest, rfl, ⟨b, hb, rfl⟩, rfl⟩
    rw [h] at hb
    exact ⟨b, _, rfl, by rw [hb]; rfl⟩

theorem reads_byte : Reads Read.byte (fun v => (Scalar.byte v).cells) fun _ _ _ => True := by
  have h : Reads (do return id (← Read.byte)) (fun v => [.content v]) fun _ _ _ => True :=
    reads_byte_map fun _ _ => Iff.rfl
  rwa [show (do return id (← Read.byte)) = Read.byte from bind_pure _] at h

theorem reads_boolean : Reads Read.boolean (fun v => (Scalar.boolean v).cells) fun _ _ _ => True :=
  reads_byte_map fun _ _ => Iff.rfl

/-- An action behind a byte that is not looked at. -/
theorem Reads.skip {act : Read α} {cells : α → List Cell} {P : Limits → Nat → α → Prop}
    (h : Reads act cells P) :
    Reads (Read.byte >>= fun _ => act) (fun a => .terminator :: cells a) P := by
  have hb : Reads (do let _ ← Read.byte; return ()) (fun _ => [.terminator]) fun _ _ _ => True :=
    reads_byte_map fun _ _ => iff_of_true trivial rfl
  have e : (Read.byte >>= fun _ => act) = (do let _ ← Read.byte; return ()) >>= fun _ => act := by
    rw [bind_assoc]
    rfl
  rw [e]
  exact hb.bind (fun _ => h) (fun _ _ _ _ _ _ => rfl)
    fun _ _ _ => ⟨fun ha => ⟨(), trivial, ha⟩, fun ⟨_, _, ha⟩ => ha⟩

/-! ## Texts -/

/-- The content of a text, when it and the byte behind it have been read. -/
theorem reads_utf8 (bytes : Bytes) (offset : Nat) :
    Reads (match bytes.findIdx? (· == terminator) with
        | some i => throw (.embeddedNul (offset + i))
        | none => match ofUtf8? bytes with
          | some s => return s
          | none => throw (.invalidUtf8 offset) : Read String)
      (fun _ => []) fun _ _ s => bytes = utf8 s ∧ terminator ∉ utf8 s := by
  cases hf : bytes.findIdx? (· == terminator) with
  | some i =>
    refine Reads.throw _ fun L r s => ?_
    rintro ⟨rfl, hn⟩
    rw [findIdx?_terminator_eq_none_iff.mpr hn] at hf
    cases hf
  | none =>
    have hn := findIdx?_terminator_eq_none_iff.mp hf
    cases hu : ofUtf8? bytes with
    | some t =>
      have ht := utf8_of_ofUtf8? hu
      refine (Reads.pure t).congr (fun _ _ _ _ => rfl) fun L r s => ⟨?_, ?_⟩
      · rintro ⟨rfl, -⟩
        exact Option.some.inj ((ofUtf8?_utf8 s).symm.trans hu)
      · rintro rfl
        exact ⟨ht.symm, ht ▸ hn⟩
    | none =>
      refine Reads.throw _ fun L r s => ?_
      rintro ⟨rfl, -⟩
      rw [ofUtf8?_utf8] at hu
      cases hu

/-- The word of a number that is not negative. -/
theorem toNat_toBitVec_of_toInt {v : Int32} {k : Nat} (h : v.toInt = k) :
    v.toBitVec.toNat = k := by
  have hi : v.toInt = if 2 * v.toBitVec.toNat < 2 ^ 32 then (v.toBitVec.toNat : Int)
      else (v.toBitVec.toNat : Int) - (2 ^ 32 : Nat) := v.toBitVec.toInt_eq_toNat_cond
  have hlt := v.toBitVec.isLt
  split_ifs at hi <;> omega

/-- The word in front of a text is its length and one more for the terminator. -/
theorem cells_text {v : Int32} {s : String} (h : v.toInt = (utf8 s).length + 1) :
    (Scalar.text s).cells =
      (Scalar.int32 v).cells ++ (Cell.contents (utf8 s) ++ [.terminator]) := by
  rw [Scalar.cells, Scalar.cells, toNat_toBitVec_of_toInt (k := (utf8 s).length + 1) h,
    List.append_assoc, textLengthSize]

/-- **A text** is read if it could have been written and is no longer than the limits allow. -/
theorem reads_text :
    Reads Read.text (fun s => (Scalar.text s).cells)
      fun L _ s => (Scalar.text s).Writable ∧ (Scalar.text s).Within L := by
  refine Reads.position fun start => ?_
  have hbody (v : Int32) : Reads
      (do
        let limit := (← get).limits.maxTextLength
        if v.toInt < 1 ∨ limit.toNat < v.toInt - 1 then
          throw (.invalidLength .text v.toInt start)
        let offset ← Read.position
        let bytes ← Read.content (v.toInt - 1).toNat
        let _ ← Read.byte
        match bytes.findIdx? (· == terminator) with
        | some i => throw (.embeddedNul (offset + i))
        | none => match ofUtf8? bytes with
          | some s => return s
          | none => throw (.invalidUtf8 offset) : Read String)
      (fun s => Cell.contents (utf8 s) ++ [.terminator])
      fun L _ s => ¬ (v.toInt < 1 ∨ L.maxTextLength.toNat < v.toInt - 1) ∧
        ∃ bytes : Bytes, bytes.length = (v.toInt - 1).toNat ∧
          bytes = utf8 s ∧ terminator ∉ utf8 s := by
    refine Reads.limits fun d => Reads.guard rfl (Reads.position fun offset => ?_)
    refine (reads_content _).bind (fun bytes => (reads_utf8 bytes offset).skip) ?_
      fun _ _ _ => Iff.rfl
    rintro L r bytes s - ⟨rfl, -⟩
    rfl
  refine reads_int32.bind hbody ?_ ?_
  · rintro L r v s - ⟨hv, bytes, hl, rfl, hn⟩
    exact cells_text (by omega)
  · intro L r s
    constructor
    · rintro ⟨⟨hn, hl⟩, hL⟩
      have hv : (Int32.ofNat ((utf8 s).length + 1)).toInt = (utf8 s).length + 1 :=
        Int32.toInt_ofNat_of_lt (by omega)
      unfold Scalar.Within at hL
      exact ⟨Int32.ofNat ((utf8 s).length + 1), trivial, by omega, utf8 s, by omega, rfl, hn⟩
    · rintro ⟨v, -, hv, bytes, hl, rfl, hn⟩
      have hlt := v.toInt_lt
      exact ⟨⟨hn, by omega⟩, show (utf8 s).length ≤ L.maxTextLength.toNat by omega⟩

/-! ## Scalars -/

/-- The scalars of one kind, in the order in which `f` makes them. -/
theorem Reads.scalar {act : Read α} {P : Limits → Nat → α → Prop} {f : α → Scalar} {p : Primitive}
    (h : Reads act (fun a => (f a).cells) P) (hf : ∀ v, v.kind = p ↔ ∃ a, v = f a)
    (hP : ∀ L r a, P L r a ↔ (f a).Writable ∧ (f a).Within L) :
    Reads (do return f (← act)) Scalar.cells fun L _ v => v.kind = p ∧ v.Writable ∧ v.Within L := by
  refine h.map f (fun _ _ _ _ => rfl) fun L r v => ?_
  rw [hf]
  constructor
  · rintro ⟨⟨a, rfl⟩, hv⟩
    exact ⟨a, (hP L r a).mpr hv, rfl⟩
  · rintro ⟨a, ha, rfl⟩
    exact ⟨⟨a, rfl⟩, (hP L r a).mp ha⟩

/-- **A scalar** of a given kind is read if it could have been written and the limits allow it. -/
theorem reads_scalar (p : Primitive) :
    Reads (Read.scalar p) Scalar.cells fun L _ v => v.kind = p ∧ v.Writable ∧ v.Within L := by
  have plain : True ↔ True ∧ True := and_self_iff.symm
  cases p with
  | int8 => exact reads_int8.scalar (by rintro ⟨⟩ <;> simp [Scalar.kind]) fun _ _ _ => plain
  | int16 => exact reads_int16.scalar (by rintro ⟨⟩ <;> simp [Scalar.kind]) fun _ _ _ => plain
  | int32 => exact reads_int32.scalar (by rintro ⟨⟩ <;> simp [Scalar.kind]) fun _ _ _ => plain
  | int64 => exact reads_int64.scalar (by rintro ⟨⟩ <;> simp [Scalar.kind]) fun _ _ _ => plain
  | float32 => exact reads_float32.scalar (by rintro ⟨⟩ <;> simp [Scalar.kind]) fun _ _ _ => plain
  | float64 => exact reads_float64.scalar (by rintro ⟨⟩ <;> simp [Scalar.kind]) fun _ _ _ => plain
  | boolean => exact reads_boolean.scalar (by rintro ⟨⟩ <;> simp [Scalar.kind]) fun _ _ _ => plain
  | byte => exact reads_byte.scalar (by rintro ⟨⟩ <;> simp [Scalar.kind]) fun _ _ _ => plain
  | text => exact reads_text.scalar (by rintro ⟨⟩ <;> simp [Scalar.kind]) fun _ _ _ => Iff.rfl

/-! ## Fingerprints and counts -/

theorem Fingerprint.toBytes_ofBytes {bs : Bytes} (h : bs.length = fingerprintSize) :
    (ofBytes bs).toBytes = bs := by
  have hlt : BigEndian.decode bs < 256 ^ fingerprintSize := h ▸ BigEndian.decode_lt bs
  have hw : (UInt64.ofNat (BigEndian.decode bs)).toNat = BigEndian.decode bs :=
    UInt64.toNat_ofNat_of_lt' hlt
  have he := BigEndian.encode_decode bs
  rw [h] at he
  rw [toBytes, ofBytes, hw]
  exact he

theorem reads_fingerprint :
    Reads Read.fingerprint (fun f => Cell.contents f.toBytes) fun _ _ _ => True := by
  refine (reads_fixed fingerprintSize).map Fingerprint.ofBytes ?_ ?_
  · intro L r bs h
    rw [Fingerprint.toBytes_ofBytes h]
  · intro L r f
    exact iff_of_true trivial
      ⟨f.toBytes, BigEndian.length_encode .., (Fingerprint.ofBytes_toBytes f).symm⟩

/-- A fingerprint that must be a given one. -/
theorem reads_expect (schema : String) (expected : Fingerprint) :
    Reads (Read.expect schema expected) (fun _ => Cell.contents expected.toBytes)
      fun _ _ _ => True := by
  refine reads_fingerprint.bind (fun found => Reads.guard rfl (Reads.pure ())) ?_ ?_
  · rintro L r found u - ⟨hf, -⟩
    rw [not_not.mp hf, List.append_nil]
  · intro L r u
    exact iff_of_true trivial ⟨expected, trivial, not_not.mpr rfl, rfl⟩

/-- **A count** is taken if it is not negative and within the limits. -/
theorem reads_countAt (k : Int) (offset : Nat) :
    Reads (Read.countAt k offset) (fun _ => [])
      fun L _ a => (a : Int) = k ∧ a ≤ L.maxArrayLength.toNat := by
  refine Reads.limits fun d => (Reads.guard rfl (Reads.pure k.toNat)).congr (fun _ _ _ _ => rfl) ?_
  intro L r a
  omega

end MessageWire
