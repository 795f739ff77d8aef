import MessageWire.Wire.Sink

/-!
# What a sink takes

A sink takes bytes as long as there is room, and which of them it takes does not depend on how they
are cut into writes.

* `Sink.Holds`, `Sink.add`, `Sink.fill`: room for all of some bytes, the sink with all of them, and
  the sink with as many as it takes;
* **`Sink.write_eq`**: a write fills the sink;
* `Sink.offer`: writes one after the other up to the first that fails, `Sink.snd_offer`,
  `Sink.offer_append_of_holds`, `Sink.offer_append_of_not_holds`.
-/

namespace MessageWire

namespace Sink

variable {s : Sink} {as bs : Bytes}

/-- There is room for all of `bs`. -/
def Holds (s : Sink) (bs : Bytes) : Prop := s.room bs.length = bs.length

instance (s : Sink) (bs : Bytes) : Decidable (s.Holds bs) := inferInstanceAs (Decidable (_ = _))

/-- The sink with `bs` behind what it holds. -/
def add (s : Sink) (bs : Bytes) : Sink := { s with held := s.held ++ bs }

/-- The sink with as much of `bs` as there is room for. -/
def fill (s : Sink) (bs : Bytes) : Sink := s.add (bs.take (s.room bs.length))

theorem room_le (s : Sink) (k : Nat) : s.room k ≤ k := by
  unfold room
  cases s.capacity? with
  | none => exact Nat.le_refl k
  | some capacity => exact Nat.min_le_left ..

/-- **A write** succeeds if there is room for all of it, and fills the sink. -/
theorem write_eq (s : Sink) (bs : Bytes) :
    s.write bs = (if s.Holds bs then .ok () else .error s.fullFault, s.fill bs) := by
  have hle := s.room_le bs.length
  by_cases h : s.Holds bs
  · have hroom : s.room bs.length = bs.length := h
    rw [if_pos h, write, if_neg (by omega)]
    rfl
  · have hroom : s.room bs.length ≠ bs.length := h
    rw [if_neg h, write, if_pos (by omega)]
    rfl

theorem holds_nil (s : Sink) : s.Holds [] := Nat.le_zero.mp (s.room_le 0)

theorem holds_of_capacity_eq_none (h : s.capacity? = none) (bs : Bytes) : s.Holds bs := by
  simp [Holds, room, h]

theorem fill_of_holds (h : s.Holds bs) : s.fill bs = s.add bs := by
  rw [fill, h, List.take_length]

@[simp] theorem size_add (s : Sink) (bs : Bytes) :
    (s.add bs).held.size = s.held.size + bs.length := by
  simp [add, ← Array.length_toList]

theorem size_fill (s : Sink) (bs : Bytes) :
    (s.fill bs).held.size = s.held.size + s.room bs.length := by
  rw [fill, size_add, List.length_take_of_le (s.room_le _)]

@[simp] theorem add_nil (s : Sink) : s.add [] = s := by simp [add]

theorem add_append (s : Sink) (as bs : Bytes) : s.add (as ++ bs) = (s.add as).add bs := by
  have h : s.held ++ (as ++ bs) = s.held ++ as ++ bs := Array.ext' (by simp)
  rw [add, h]
  rfl

/-- **The room for two writes**: what the first leaves is for the second. -/
theorem room_append (s : Sink) (as bs : Bytes) :
    s.room (as ++ bs).length =
      if s.Holds as then as.length + (s.add as).room bs.length else s.room as.length := by
  have hadd : (s.add as).capacity? = s.capacity? := rfl
  have hsize := s.size_add as
  cases hc : s.capacity? with
  | none =>
    rw [if_pos (holds_of_capacity_eq_none hc as)]
    simp only [room, hadd, hc, List.length_append]
  | some capacity =>
    rw [hc] at hadd
    by_cases h : s.Holds as
    · have hroom : s.room as.length = as.length := h
      rw [if_pos h]
      simp only [room, hc, hadd, List.length_append] at hroom ⊢
      omega
    · have hroom : s.room as.length ≠ as.length := h
      rw [if_neg h]
      simp only [room, hc, List.length_append] at hroom ⊢
      omega

theorem holds_append_iff : s.Holds (as ++ bs) ↔ s.Holds as ∧ (s.add as).Holds bs := by
  have h := s.room_append as bs
  by_cases ha : s.Holds as
  · rw [if_pos ha] at h
    rw [Holds, h, List.length_append, and_iff_right ha, Holds]
    omega
  · have hroom : s.room as.length ≠ as.length := ha
    have hle := s.room_le as.length
    rw [if_neg ha] at h
    refine iff_of_false (fun hab => ?_) fun hab => ha hab.1
    have hab : s.room (as ++ bs).length = (as ++ bs).length := hab
    rw [List.length_append] at hab
    rw [List.length_append] at h
    omega

/-- Behind what has been taken in full there goes the rest. -/
theorem fill_append_of_holds (h : s.Holds as) : s.fill (as ++ bs) = (s.add as).fill bs := by
  rw [fill, room_append, if_pos h, List.take_length_add_append, add_append]
  rfl

/-- Nothing goes behind what has not been taken in full. -/
theorem fill_append_of_not_holds (h : ¬ s.Holds as) : s.fill (as ++ bs) = s.fill as := by
  rw [fill, room_append, if_neg h, List.take_append_of_le_length (s.room_le _), fill]

/-! ## Writes in a row -/

/-- Writes one after the other, up to the first that fails: those that are complete, and the sink
after all of them. -/
def offer (s : Sink) : List Bytes → List Bytes × Sink
  | [] => ([], s)
  | p :: ps => match s.write p with
    | (.ok (), s) => ((p :: (s.offer ps).1), (s.offer ps).2)
    | (.error _, s) => ([], s)

variable {ps : List Bytes}

theorem offer_cons_of_holds {p : Bytes} (h : s.Holds p) (ps : List Bytes) :
    s.offer (p :: ps) = (p :: ((s.add p).offer ps).1, ((s.add p).offer ps).2) := by
  rw [offer, write_eq, if_pos h, fill_of_holds h]

theorem offer_cons_of_not_holds {p : Bytes} (h : ¬ s.Holds p) (ps : List Bytes) :
    s.offer (p :: ps) = ([], s.fill p) := by
  rw [offer, write_eq, if_neg h]

/-- **A row of writes leaves what one write of all the bytes would leave.** -/
theorem snd_offer (s : Sink) (ps : List Bytes) : (s.offer ps).2 = s.fill ps.flatten := by
  induction ps generalizing s with
  | nil => exact (fill_of_holds s.holds_nil).trans s.add_nil |>.symm
  | cons p ps ih =>
    rw [List.flatten_cons]
    by_cases h : s.Holds p
    · rw [offer_cons_of_holds h, fill_append_of_holds h, ih]
    · rw [offer_cons_of_not_holds h, fill_append_of_not_holds h]

theorem offer_of_holds (h : s.Holds ps.flatten) : s.offer ps = (ps, s.add ps.flatten) := by
  induction ps generalizing s with
  | nil => rw [List.flatten_nil, add_nil, offer]
  | cons p ps ih =>
    rw [List.flatten_cons, holds_append_iff] at h
    rw [offer_cons_of_holds h.1, ih h.2, List.flatten_cons, add_append]

/-- If there is room for the first writes, the others go behind them. -/
theorem offer_append_of_holds (h : s.Holds ps.flatten) (qs : List Bytes) :
    s.offer (ps ++ qs) =
      (ps ++ ((s.add ps.flatten).offer qs).1, ((s.add ps.flatten).offer qs).2) := by
  induction ps generalizing s with
  | nil => rw [List.flatten_nil, add_nil, List.nil_append, List.nil_append]
  | cons p ps ih =>
    rw [List.flatten_cons, holds_append_iff] at h
    rw [List.cons_append, offer_cons_of_holds h.1, ih h.2, List.flatten_cons, add_append,
      List.cons_append]

/-- If there is no room for the first writes, the others do not matter. -/
theorem offer_append_of_not_holds (h : ¬ s.Holds ps.flatten) (qs : List Bytes) :
    s.offer (ps ++ qs) = s.offer ps := by
  induction ps generalizing s with
  | nil => exact absurd s.holds_nil h
  | cons p ps ih =>
    rw [List.cons_append]
    by_cases hp : s.Holds p
    · rw [List.flatten_cons, holds_append_iff, and_iff_right hp] at h
      rw [offer_cons_of_holds hp, offer_cons_of_holds hp, ih h]
    · rw [offer_cons_of_not_holds hp, offer_cons_of_not_holds hp]

/-- The complete writes are among the bytes that were taken. -/
theorem length_offer_le (s : Sink) (ps : List Bytes) :
    s.held.size + (s.offer ps).1.flatten.length ≤ (s.offer ps).2.held.size := by
  induction ps generalizing s with
  | nil => exact Nat.le_refl _
  | cons p ps ih =>
    by_cases h : s.Holds p
    · have := ih (s.add p)
      rw [offer_cons_of_holds h, List.flatten_cons, List.length_append]
      rw [size_add] at this
      dsimp only
      omega
    · rw [offer_cons_of_not_holds h, size_fill]
      exact Nat.le_add_right ..

end Sink

end MessageWire
