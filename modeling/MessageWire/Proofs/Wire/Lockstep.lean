import MessageWire.Proofs.Wire.Read

/-!
# Two readers in lockstep

Two readers of the same bytes that agree on what they read, on where they stop and on why. A count
may be reported where it begins by one of them and behind it by the other.

* `WireError.Near`: errors that differ in the offset of a count;
* `Tracks`: the two readers, `Tracks.bind`, `Tracks.level`, `Tracks.times`;
* **`tracks_count`**: the two places where a count is reported;
* `Tracks.run`: two whole runs.
-/

namespace MessageWire

/-- The same error, or the same bad number of elements, reported behind the word that holds it and
where that word begins. -/
def WireError.Near (e e' : WireError) : Prop :=
  e = e' ∨ ∃ k offset,
    e = .invalidLength .array k (offset + 4) ∧ e' = .invalidLength .array k offset

variable {α β γ δ : Type}

/-- **Two readers that keep step:** from any decoder they come to answers in relation, or to near
errors, and to the same decoder. -/
def Tracks (R : α → β → Prop) (act : Read α) (act' : Read β) : Prop :=
  ∀ d, (∃ a b d', R a b ∧ act d = .ok a d' ∧ act' d = .ok b d') ∨
    ∃ e e' d', e.Near e' ∧ act d = .error e d' ∧ act' d = .error e' d'

namespace Tracks

variable {R : α → β → Prop} {act : Read α} {act' : Read β}

theorem refl (act : Read α) : Tracks Eq act act := fun d => by
  cases act d with
  | ok a d' => exact Or.inl ⟨a, a, d', rfl, rfl, rfl⟩
  | error e d' => exact Or.inr ⟨e, e, d', Or.inl rfl, rfl, rfl⟩

theorem pure {a : α} {b : β} (h : R a b) : Tracks R (Pure.pure a) (Pure.pure b) :=
  fun d => Or.inl ⟨a, b, d, h, rfl, rfl⟩

/-- **Two pairs of readers in sequence.** -/
theorem bind {Q : γ → δ → Prop} {next : α → Read γ} {next' : β → Read δ} (h : Tracks R act act')
    (hn : ∀ a b, R a b → Tracks Q (next a) (next' b)) :
    Tracks Q (act >>= next) (act' >>= next') := by
  intro d
  obtain ⟨a, b, d', hab, ha, hb⟩ | ⟨e, e', d', he, ha, hb⟩ := h d
  · rw [bind_ok ha, bind_ok hb]
    exact hn a b hab d'
  · exact Or.inr ⟨e, e', d', he, bind_error ha, bind_error hb⟩

theorem map {Q : γ → δ → Prop} {f : α → γ} {g : β → δ} (h : Tracks R act act')
    (hf : ∀ a b, R a b → Q (f a) (g b)) :
    Tracks Q (do return f (← act)) (do return g (← act')) :=
  h.bind fun a b hab => .pure (hf a b hab)

theorem map_right {Q : α → δ → Prop} {g : β → δ} (h : Tracks R act act')
    (hf : ∀ a b, R a b → Q a (g b)) : Tracks Q act (do return g (← act')) := by
  have hid := h.map (f := fun a => a) hf
  rwa [bind_pure] at hid

/-- **Two readers on levels of their own.** -/
theorem level (h : Tracks R act act') : Tracks R (Read.level act) (Read.level act') := by
  intro d
  rw [Read.level_apply, Read.level_apply]
  by_cases hr : 0 < d.levels
  · rw [if_pos hr, if_pos hr]
    obtain ⟨a, b, d', hab, ha, hb⟩ | ⟨e, e', d', he, ha, hb⟩ := h d.deeper
    · rw [ha, hb]
      exact Or.inl ⟨a, b, d'.shallower, hab, rfl, rfl⟩
    · rw [ha, hb]
      exact Or.inr ⟨e, e', d'.shallower, he, rfl, rfl⟩
  · rw [if_neg hr, if_neg hr]
    exact Or.inr ⟨_, _, d, Or.inl rfl, rfl, rfl⟩

/-- **Two readers for every element of an array.** -/
theorem times (h : Tracks R act act') (k : Nat) :
    Tracks (fun as bs => as.length = k ∧ List.Forall₂ R as bs) (Read.times k act)
      (Read.times k act') := by
  induction k with
  | zero => exact .pure ⟨rfl, .nil⟩
  | succ k ih =>
    rw [Read.times_succ, Read.times_succ]
    exact h.bind fun a b hab =>
      ih.map fun as bs ⟨hk, habs⟩ => ⟨congrArg Nat.succ hk, .cons hab habs⟩

/-- **Two whole runs.** -/
theorem run (h : Tracks R act act') (source : Source) (limits : Limits) :
    (∃ a b left, R a b ∧ act.run source limits = (.ok a, left) ∧
      act'.run source limits = (.ok b, left)) ∨
    ∃ e e' left, e.Near e' ∧ act.run source limits = (.error e, left) ∧
      act'.run source limits = (.error e', left) := by
  unfold Read.run
  obtain ⟨a, b, d, hab, ha, hb⟩ | ⟨e, e', d, he, ha, hb⟩ := h (.new source limits)
  · rw [ha, hb]
    exact Or.inl ⟨a, b, d.source, hab, rfl, rfl⟩
  · rw [ha, hb]
    exact Or.inr ⟨e, e', d.source, he, rfl, rfl⟩

end Tracks

/-! ## Counts -/

/-- A word moves the offset by its length. -/
theorem Read.position_of_int32_eq_ok {d d' : Decoder} {v : Int32} (h : Read.int32 d = .ok v d') :
    d'.position = d.position + 4 := by
  obtain ⟨k, d₁, hk, hv⟩ := bind_eq_ok_iff.mp h
  obtain ⟨bs, d₂, hbs, hk⟩ := bind_eq_ok_iff.mp hk
  cases hv
  cases hk
  rw [Read.fixed] at hbs
  cases hs : d.source.exactly 4 with
  | mk answer source =>
    rw [hs] at hbs
    cases answer with
    | ok us =>
      cases hbs
      rfl
    | error fault => cases hbs

/-- A count is a number that the limits allow, and which is not negative. -/
theorem Read.countAt_apply (k : Int) (offset : Nat) (d : Decoder) :
    Read.countAt k offset d =
      if k < 0 ∨ d.limits.maxArrayLength.toNat < k then .error (.invalidLength .array k offset) d
      else .ok k.toNat d := by
  change (if _ then _ else _ : Read Nat) d = _
  split <;> rfl

/-- **A count** that is held against the limits behind its word, and one that is held against them
where the word begins. -/
theorem tracks_count :
    Tracks (fun k (p : Int32 × Nat) => p.2 = k ∧ p.1.toInt = k)
      (do let v ← Read.int32; Read.count v.toInt)
      (do
        let offset ← Read.position
        let v ← Read.int32
        return (v, ← Read.countAt v.toInt offset)) := by
  intro d
  cases hv : Read.int32 d with
  | error e d' => exact Or.inr ⟨e, e, d', Or.inl rfl, bind_error hv, (bind_error hv).trans rfl⟩
  | ok v d' =>
    have hcount : Read.count v.toInt d' = Read.countAt v.toInt d'.position d' := rfl
    by_cases hk : v.toInt < 0 ∨ d'.limits.maxArrayLength.toNat < v.toInt
    · refine Or.inr ⟨.invalidLength .array v.toInt d'.position,
        .invalidLength .array v.toInt d.position, d', Or.inr ⟨_, d.position, ?_, rfl⟩, ?_, ?_⟩
      · rw [Read.position_of_int32_eq_ok hv]
      · rw [bind_ok hv, hcount, Read.countAt_apply, if_pos hk]
      · refine (bind_ok hv).trans (bind_error ?_)
        rw [Read.countAt_apply, if_pos hk]
    · refine Or.inl ⟨v.toInt.toNat, (v, v.toInt.toNat), d', ⟨rfl, ?_⟩, ?_, ?_⟩
      · exact (Int.toNat_of_nonneg (Int.not_lt.mp fun h => hk (Or.inl h))).symm
      · rw [bind_ok hv, hcount, Read.countAt_apply, if_neg hk]
      · have hat : Read.countAt v.toInt d.position d' = .ok v.toInt.toNat d' := by
          rw [Read.countAt_apply, if_neg hk]
        exact (bind_ok hv).trans ((bind_ok hat).trans rfl)

end MessageWire
