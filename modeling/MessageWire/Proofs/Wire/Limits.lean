import MessageWire.Proofs.Wire.Read

/-!
# One action under two sets of limits

Limits only ever refuse. Under looser limits an action does what it does under tighter ones, byte
for byte, as long as it is not a limit that stops it.

* `WireError.OfLimits`: the errors that a limit may be the reason for;
* `Limits.Le`, `Limits.le_unlimited`: limits that allow no more than others;
* `Relaxes`: two runs that keep step, `Relaxes.bind`, `Relaxes.level`, `Relaxes.times`;
* `Relaxes.run`: two whole runs;
* **`relaxes_text`**, **`relaxes_scalar`**, **`relaxes_countAt`**: where the limits are looked at.
-/

namespace MessageWire

/-- The length of a text or of an array, or the depth of a message, is refused. -/
def WireError.OfLimits : WireError → Prop
  | invalidLength .. => True
  | tooDeep _ => True
  | _ => False

namespace Limits

/-- Limits that allow no more than others. -/
structure Le (L L' : Limits) : Prop where
  text : L.maxTextLength.toNat ≤ L'.maxTextLength.toNat
  array : L.maxArrayLength.toNat ≤ L'.maxArrayLength.toNat
  depth : L.maxDepth.toNat ≤ L'.maxDepth.toNat

theorem le_unlimited (L : Limits) : L.Le unlimited := by
  have word (w : UInt64) : w.toNat ≤ (0xffffffffffffffff : UInt64).toNat := by
    have := w.toNat_lt
    rw [show (0xffffffffffffffff : UInt64).toNat = 2 ^ 64 - 1 from rfl]
    omega
  exact ⟨word _, word _, word _⟩

end Limits

/-- The decoder with other limits. -/
def Decoder.under (d : Decoder) (L : Limits) : Decoder := { d with limits := L }

variable {α β : Type}

/-- **Two runs that keep step:** what `act` does under some limits, `act'` does under looser ones,
unless `act` is stopped by a length or by the depth. -/
def Relaxes (act act' : Read α) : Prop :=
  ∀ (d : Decoder) (L : Limits), d.limits.Le L → match act d with
    | .ok a d₁ => d₁.limits = d.limits ∧ act' (d.under L) = .ok a (d₁.under L)
    | .error e d₁ => e.OfLimits ∨ act' (d.under L) = .error e (d₁.under L)

namespace Relaxes

variable {act act' : Read α}

theorem pure (a : α) : Relaxes (Pure.pure a) (Pure.pure a) := fun _ _ _ => ⟨rfl, rfl⟩

theorem throw (e : WireError) : Relaxes (MonadExcept.throw e : Read α) (MonadExcept.throw e) :=
  fun _ _ _ => Or.inr rfl

/-- A limit may refuse what is not refused under looser limits. -/
theorem refuse {e : WireError} (he : e.OfLimits) : Relaxes (MonadExcept.throw e) act' :=
  fun _ _ _ => Or.inl he

/-- **Two pairs of actions in sequence.** -/
theorem bind {next next' : α → Read β} (h : Relaxes act act')
    (hn : ∀ a, Relaxes (next a) (next' a)) : Relaxes (act >>= next) (act' >>= next') := by
  intro d L hL
  have hd := h d L hL
  cases ha : act d with
  | ok a d₁ =>
    rw [ha] at hd
    obtain ⟨hl, ha'⟩ := hd
    have hd₁ := hn a d₁ L (hl ▸ hL)
    rw [bind_ok ha, bind_ok ha', ← hl]
    exact hd₁
  | error e d₁ =>
    rw [ha] at hd
    rw [bind_error ha]
    exact hd.imp_right fun ha' => bind_error ha'

theorem map (f : α → β) (h : Relaxes act act') :
    Relaxes (do return f (← act)) (do return f (← act')) := h.bind fun a => pure (f a)

theorem position {next next' : Nat → Read α} (h : ∀ p, Relaxes (next p) (next' p)) :
    Relaxes (Read.position >>= next) (Read.position >>= next') := fun d => h d.position d

/-- Two actions that look at the limits they run under. -/
theorem limits {next next' : Decoder → Read α}
    (h : ∀ (d : Decoder) (L : Limits), d.limits.Le L → Relaxes (next d) (next' (d.under L))) :
    Relaxes (get >>= next) (get >>= next') := fun d L hL => h d L hL d L hL

/-- Two actions that look at the levels they may open. -/
theorem levels {next next' : Nat → Read α} (h : ∀ r r', r ≤ r' → Relaxes (next r) (next' r')) :
    Relaxes (Read.levels >>= next) (Read.levels >>= next') :=
  fun d L hL => h d.levels (d.under L).levels (Nat.sub_le_sub_right hL.depth _) d L hL

/-- A condition of the limits, which is refused less often under looser ones. -/
theorem guard {c c' : Prop} [Decidable c] [Decidable c'] {bad bad' : Read α} {e : WireError}
    (hbad : bad = MonadExcept.throw e) (he : e.OfLimits) (hc : c' → c) (h : Relaxes act act') :
    Relaxes (if c then bad else act) (if c' then bad' else act') := by
  by_cases hr : c
  · rw [if_pos hr, hbad]
    exact refuse he
  · rwa [if_neg hr, if_neg fun hc' => hr (hc hc')]

/-- **Two actions on levels of their own.** The tighter limits may have no level left. -/
theorem level (h : Relaxes act act') : Relaxes (Read.level act) (Read.level act') := by
  intro d L hL
  rw [Read.level_apply, Read.level_apply]
  by_cases hr : 0 < d.levels
  · have hr' : 0 < (d.under L).levels :=
      Nat.lt_of_lt_of_le hr (Nat.sub_le_sub_right hL.depth d.depth)
    have hd := h d.deeper L hL
    have he : (d.under L).deeper = d.deeper.under L := rfl
    rw [if_pos hr, if_pos hr', he]
    cases ha : act d.deeper with
    | ok a d₁ =>
      rw [ha] at hd
      rw [hd.2]
      exact ⟨hd.1, rfl⟩
    | error e d₁ =>
      rw [ha] at hd
      exact hd.imp_right fun ha' => by rw [ha']; rfl
  · rw [if_neg hr]
    exact Or.inl trivial

/-- **Two actions for every element of an array.** -/
theorem times (h : Relaxes act act') (k : Nat) :
    Relaxes (Read.times k act) (Read.times k act') := by
  induction k with
  | zero => exact pure []
  | succ k ih =>
    rw [Read.times_succ, Read.times_succ]
    exact h.bind fun a => ih.map (a :: ·)

/-- **Two whole runs** come to the same, unless a limit stops the first. -/
theorem run (h : Relaxes act act') {source left : Source} {L L' : Limits} (hL : L.Le L')
    {o : Except WireError α} (hr : act.run source L = (o, left)) :
    (∃ e, o = .error e ∧ e.OfLimits) ∨ act'.run source L' = (o, left) := by
  have hd := h (.new source L) L' hL
  have hn : (Decoder.new source L).under L' = .new source L' := rfl
  unfold Read.run at hr ⊢
  rw [hn] at hd
  cases ha : act (.new source L) with
  | ok a d₁ =>
    rw [ha] at hd hr
    cases hr
    right
    rw [hd.2]
    rfl
  | error e d₁ =>
    rw [ha] at hd hr
    cases hr
    refine hd.imp (fun he => ⟨e, rfl, he⟩) fun ha' => ?_
    rw [ha']
    rfl

end Relaxes

/-! ## The forms on the wire -/

theorem relaxes_fixed (k : Nat) : Relaxes (Read.fixed k) (Read.fixed k) := by
  intro d L _
  simp only [Read.fixed, Decoder.under]
  cases d.source.exactly k with
  | mk answer source =>
    cases answer with
    | ok bs => exact ⟨rfl, rfl⟩
    | error fault => exact Or.inr rfl

theorem relaxes_content (k : Nat) : Relaxes (Read.content k) (Read.content k) := by
  intro d L _
  simp only [Read.content, Decoder.under]
  cases d.source.upTo k with
  | mk answer source =>
    cases answer with
    | ok bs =>
      dsimp only
      split_ifs with h
      · exact Or.inr rfl
      · exact ⟨rfl, rfl⟩
    | error fault => exact Or.inr rfl

theorem relaxes_word (w : Nat) : Relaxes (Read.word w) (Read.word w) := (relaxes_fixed w).map _

theorem relaxes_byte : Relaxes Read.byte Read.byte := (relaxes_word 1).map _

theorem relaxes_int32 : Relaxes Read.int32 Read.int32 := (relaxes_word 4).map _

/-- **A text.** Only its length is held against the limits. -/
theorem relaxes_text : Relaxes Read.text Read.text := by
  refine .position fun start => relaxes_int32.bind fun v => ?_
  refine .limits fun d L hL => ?_
  have hc (h : v.toInt < 1 ∨ L.maxTextLength.toNat < v.toInt - 1) :
      v.toInt < 1 ∨ d.limits.maxTextLength.toNat < v.toInt - 1 := by
    have := hL.text
    omega
  refine .guard rfl trivial hc (.position fun offset => ?_)
  refine (relaxes_content _).bind fun bytes => relaxes_byte.bind fun _ => ?_
  cases bytes.findIdx? (· == terminator) with
  | some i => exact .throw _
  | none =>
    cases ofUtf8? bytes with
    | some s => exact .pure s
    | none => exact .throw _

/-- **A scalar** of any kind. -/
theorem relaxes_scalar (p : Primitive) : Relaxes (Read.scalar p) (Read.scalar p) := by
  cases p with
  | text => exact relaxes_text.map _
  | boolean => exact (relaxes_byte.map _).map _
  | byte => exact relaxes_byte.map _
  | _ => exact ((relaxes_word _).map _).map _

theorem relaxes_expect (schema : String) (expected : Fingerprint) :
    Relaxes (Read.expect schema expected) (Read.expect schema expected) := by
  refine ((relaxes_fixed _).map _).bind fun found => ?_
  split_ifs with h
  · exact .throw _
  · exact .pure ()

/-- **A count** is held against the limits. -/
theorem relaxes_countAt (k : Int) (offset : Nat) :
    Relaxes (Read.countAt k offset) (Read.countAt k offset) := by
  refine .limits fun d L hL => .guard rfl trivial (fun h => ?_) (.pure k.toNat)
  change k < 0 ∨ L.maxArrayLength.toNat < k at h
  have := hL.array
  omega

end MessageWire
