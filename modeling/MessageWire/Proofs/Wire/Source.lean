import MessageWire.Wire.Source

/-!
# What a source hands out

However small the pieces of a source are, and whether or not they are of one size, reading goes on
until the bytes are complete or the source is at its end.

* `Pieces.Positive`: every read gets something;
* `Source.passed`: a source behind some reads, `Source.passed_passed`;
* `Source.next_cases`, `Source.upTo_front`, **`Source.upTo_cases`**: what one read and a read that
  may end early come to, on any source;
* `Source.exactly_eq`: a read that must be complete, by one that may end early;
* `Source.upTo_memory`, `Source.exactly_memory`: the same on bytes in memory.
-/

namespace MessageWire

namespace Pieces

variable {p : Pieces}

/-- Every read gets something, if there is anything. -/
def Positive (p : Pieces) : Prop := (∀ k ∈ p.first, 0 < k) ∧ ∀ k ∈ p.later?, 0 < k

instance (p : Pieces) : Decidable p.Positive := inferInstanceAs (Decidable (_ ∧ _))

theorem Positive.drop (h : p.Positive) (reads : Nat) : (p.drop reads).Positive :=
  ⟨fun k hk => h.1 k (List.mem_of_mem_drop hk), h.2⟩

theorem Positive.next? (h : p.Positive) : ∀ k ∈ p.next?, 0 < k := by
  obtain ⟨first, later?⟩ := p
  cases first with
  | nil => exact h.2
  | cons k first =>
    intro c hc
    obtain rfl : k = c := Option.some.inj hc
    exact h.1 k List.mem_cons_self

theorem positive_uniform_none : (uniform none).Positive := by decide

@[simp] theorem drop_drop (p : Pieces) (i j : Nat) : (p.drop i).drop j = p.drop (i + j) := by
  simp [drop]

/-- One bound for every read is the same behind any number of them. -/
@[simp] theorem drop_uniform (bound? : Option Nat) (reads : Nat) :
    (uniform bound?).drop reads = uniform bound? := by simp [drop, uniform]

end Pieces

namespace Source

variable {s : Source} {bs : Bytes} {k : Nat}

/-- The source behind some reads, when `bs` are left. -/
def passed (s : Source) (reads : Nat) (bs : Bytes) : Source := ⟨bs, s.pieces.drop reads, s.fault?⟩

@[simp] theorem passed_passed (s : Source) (i j : Nat) (bs cs : Bytes) :
    (s.passed i bs).passed j cs = s.passed (i + j) cs := by simp [passed]

theorem passed_zero (h : s.rest = bs) : s.passed 0 bs = s := by rw [← h]; rfl

@[simp] theorem passed_memory (reads : Nat) (bs cs : Bytes) :
    (memory bs).passed reads cs = memory cs := by simp [passed, memory]

theorem portion_le (s : Source) (k : Nat) : s.portion k ≤ k := Nat.min_le_left _ _

theorem portion_pos (h : s.pieces.Positive) (hk : 0 < k) : 0 < s.portion k := by
  rw [portion]
  cases hp : s.pieces.next? with
  | none => simpa using hk
  | some c =>
    have := h.next? c hp
    rw [Option.getD_some]
    omega

/-- One read hands out the next portion, unless the source is at its end and fails there. -/
theorem next_eq (h : s.rest ≠ [] ∨ s.fault? = none) :
    s.next k = (.ok (s.rest.take (s.portion k)), s.passed 1 (s.rest.drop (s.portion k))) := by
  unfold next
  split
  · rename_i hr hf
    rcases h with h | h
    · exact absurd hr h
    · rw [h] at hf
      cases hf
  · rfl

theorem next_fault {fault : Fault} (hk : 0 < k) (hr : s.rest = []) (hf : s.fault? = some fault) :
    s.next k = (.error fault, s) := by
  obtain ⟨k, rfl⟩ : ∃ j, k = j + 1 := ⟨k - 1, by omega⟩
  unfold next
  rw [hr, hf]

/-- **One read** fails at the end of a source that fails there. Else it hands out some of the bytes,
and none only if there are none left or if reads may get nothing. -/
theorem next_cases (s : Source) (hk : 0 < k) :
    (∃ fault, s.next k = (.error fault, s) ∧ s.rest = [] ∧ s.fault? = some fault) ∨
    ∃ bs rest, s.next k = (.ok bs, s.passed 1 rest) ∧ s.rest = bs ++ rest ∧ bs.length ≤ k ∧
      (s.pieces.Positive → bs = [] → rest = [] ∧ s.fault? = none) := by
  by_cases h : s.rest ≠ [] ∨ s.fault? = none
  · refine Or.inr ⟨_, _, next_eq h, (List.take_append_drop _ _).symm, ?_, fun hp hbs => ?_⟩
    · exact Nat.le_trans (List.length_take_le _ _) (s.portion_le k)
    · have hr : s.rest = [] := by
        have := portion_pos hp hk
        rcases List.take_eq_nil_iff.mp hbs with h0 | hr
        · omega
        · exact hr
      exact ⟨by rw [hr, List.drop_nil], h.resolve_left (not_not_intro hr)⟩
  · rw [not_or, Decidable.not_not] at h
    obtain ⟨fault, hf⟩ := Option.ne_none_iff_exists'.mp h.2
    exact Or.inl ⟨fault, next_fault hk h.1 hf, h.1, hf⟩

/-! ## Reads that may end early -/

/-- **A read that may end early** hands out bytes from the front, and if every read gets something
it hands out too few only at the end. It fails only for a failure of the source, at the end. -/
theorem upTo_front (s : Source) (k : Nat) :
    (∃ reads bs rest, s.upTo k = (.ok bs, s.passed reads rest) ∧ s.rest = bs ++ rest ∧
      bs.length ≤ k ∧ (s.pieces.Positive → bs.length < k → rest = [] ∧ s.fault? = none)) ∨
    ∃ reads fault, s.upTo k = (.error fault, s.passed reads []) ∧ s.rest.length < k ∧
      s.fault? = some fault := by
  -- on the number of bytes still asked for, which falls by what a read hands out
  induction k using Nat.strongRecOn generalizing s with
  | ind k ih =>
    rw [upTo]
    by_cases h0 : k = 0
    · subst h0
      exact Or.inl ⟨0, [], s.rest, if_pos rfl, rfl, Nat.le_refl 0, fun _ h => absurd h (by decide)⟩
    rw [if_neg h0]
    obtain ⟨fault, hn, hr, hf⟩ | ⟨bs, rest, hn, hr, hle, hpos⟩ :=
      s.next_cases (Nat.pos_of_ne_zero h0)
    · rw [hn]
      refine Or.inr ⟨0, fault, ?_, ?_, hf⟩
      · rw [passed_zero hr]
      · rw [hr]
        exact Nat.pos_of_ne_zero h0
    rw [hn]
    dsimp only
    by_cases hbs : bs = []
    · rw [if_pos hbs]
      exact Or.inl ⟨1, [], rest, rfl, by rw [hr, hbs], Nat.zero_le k, fun hp _ => hpos hp hbs⟩
    rw [if_neg hbs]
    have hlen := List.length_pos_iff.mpr hbs
    obtain ⟨reads, more, left, hm, hrest, hmore, hend⟩ | ⟨reads, fault, hm, hlt, hf⟩ :=
      ih (k - bs.length) (by omega) (s.passed 1 rest)
    · refine Or.inl ⟨1 + reads, bs ++ more, left, ?_, ?_, ?_, fun hp hshort => ?_⟩
      · rw [hm, passed_passed]
      · rw [hr, List.append_assoc]
        exact congrArg _ hrest
      · rw [List.length_append]
        omega
      · rw [List.length_append] at hshort
        exact hend (hp.drop 1) (by omega)
    · refine Or.inr ⟨1 + reads, fault, ?_, ?_, hf⟩
      · rw [hm, passed_passed]
      · rw [hr, List.length_append]
        have : rest.length < k - bs.length := hlt
        omega

/-- The bytes are complete, or they are too few, or the source fails. -/
theorem upTo_cases (s : Source) (k : Nat) :
    (∃ reads, k ≤ s.rest.length ∧
      s.upTo k = (.ok (s.rest.take k), s.passed reads (s.rest.drop k))) ∨
    (∃ reads bs rest, bs.length < k ∧ s.upTo k = (.ok bs, s.passed reads rest) ∧
      (s.pieces.Positive → s.rest = bs ∧ rest = [] ∧ s.fault? = none)) ∨
    ∃ reads fault, s.rest.length < k ∧ s.upTo k = (.error fault, s.passed reads []) ∧
      s.fault? = some fault := by
  obtain ⟨reads, bs, rest, h, hr, hle, hend⟩ | ⟨reads, fault, h, hlt, hf⟩ := s.upTo_front k
  · by_cases hk : bs.length < k
    · refine Or.inr (Or.inl ⟨reads, bs, rest, hk, h, fun hp => ?_⟩)
      obtain ⟨rfl, hf⟩ := hend hp hk
      exact ⟨hr.trans (List.append_nil bs), rfl, hf⟩
    · obtain rfl : k = bs.length := by omega
      refine Or.inl ⟨reads, ?_, ?_⟩
      · rw [hr, List.length_append]
        omega
      · rw [h, hr, List.take_left, List.drop_left]
  · exact Or.inr (Or.inr ⟨reads, fault, hlt, h, hf⟩)

/-- Bytes in memory are handed out as far as they go. -/
theorem upTo_memory (bs : Bytes) (k : Nat) :
    (memory bs).upTo k = (.ok (bs.take k), memory (bs.drop k)) := by
  obtain ⟨reads, -, h⟩ | ⟨reads, us, rest, hk, h, hend⟩ | ⟨-, fault, -, -, hf⟩ :=
    (memory bs).upTo_cases k
  · rw [h, passed_memory]
    rfl
  · obtain ⟨hbs, rfl, -⟩ := hend Pieces.positive_uniform_none
    obtain rfl : bs = us := hbs
    rw [h, passed_memory, List.take_of_length_le (Nat.le_of_lt hk),
      List.drop_of_length_le (Nat.le_of_lt hk)]
  · cases hf

/-! ## Reads that must be complete -/

/-- **A read that must be complete** is one that may end early, with an answer of its own if it
does. -/
theorem exactly_eq (s : Source) (k : Nat) :
    s.exactly k = match s.upTo k with
      | (.ok bs, left) => if bs.length < k then (.error endFault, left) else (.ok bs, left)
      | (.error fault, left) => (.error fault, left) := by
  induction k using Nat.strongRecOn generalizing s with
  | ind k ih =>
    rw [exactly, upTo]
    by_cases h0 : k = 0
    · subst h0
      rfl
    rw [if_neg h0, if_neg h0]
    rcases s.next k with ⟨_ | bs, left⟩
    · rfl
    dsimp only
    by_cases hbs : bs = []
    · rw [if_pos hbs, if_pos hbs]
      exact (if_pos (Nat.pos_of_ne_zero h0)).symm
    rw [if_neg hbs, if_neg hbs]
    have hlen := List.length_pos_iff.mpr hbs
    rw [ih (k - bs.length) (by omega) left]
    rcases left.upTo (k - bs.length) with ⟨_ | more, left⟩
    · rfl
    have hshort : (bs ++ more).length < k ↔ more.length < k - bs.length := by
      rw [List.length_append]
      omega
    dsimp only
    by_cases hm : more.length < k - bs.length
    · rw [if_pos hm, if_pos (hshort.mpr hm)]
    · rw [if_neg hm, if_neg (mt hshort.mp hm)]

/-- Bytes in memory that are complete are handed out. -/
theorem exactly_memory (bs : Bytes) (k : Nat) :
    (memory bs).exactly k =
      if k ≤ bs.length then (.ok (bs.take k), memory (bs.drop k))
      else (.error endFault, memory []) := by
  rw [exactly_eq, upTo_memory]
  dsimp only
  rw [List.length_take]
  by_cases hk : k ≤ bs.length
  · rw [if_pos hk, if_neg (by omega)]
  · rw [if_neg hk, if_pos (by omega), List.drop_of_length_le (by omega)]

end Source

end MessageWire
