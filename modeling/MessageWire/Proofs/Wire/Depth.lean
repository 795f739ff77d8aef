import MessageWire.Proofs.Wire.Closed
import MessageWire.Proofs.Wire.Read
import MessageWire.Typed.Basic

/-!
# The depth of a decoder

A decoder counts the levels that are open. A level that an action opens for what is inside is closed
again, also when the inside fails, and so the decoder can be used after a failure.

* `Read.after`, `Read.attempt`: the decoder that an action leaves behind, and an action whose failure
  is an answer;
* `Read.Program`: all that can be done with a decoder, `Read.Program.closed`;
* `Decoder.Accounted`: the depth before and after, `Accounted.trans`, `Accounted.level`;
* **`Read.Program.accounted`**, `Read.Program.balanced`, `Read.enter_of_le`: programs and the depth.
-/

namespace MessageWire

variable {α β : Type}

namespace Read

/-- The decoder that an action leaves behind, whether it fails or not. -/
def after (act : Read α) (d : Decoder) : Decoder :=
  match act d with
  | .ok _ d' => d'
  | .error _ d' => d'

/-- An action whose failure is an answer, behind which the decoder is used again. -/
def attempt (act : Read α) : Read (Except WireError α) := fun d =>
  match act d with
  | .ok a d' => .ok (.ok a) d'
  | .error e d' => .ok (.error e) d'

/-- **A program that uses a decoder.** It takes bytes, looks at the decoder, reads messages on levels
of their own, and goes on or not after a failure. Levels by themselves it opens and closes only if
`bare` holds. -/
inductive Program (bare : Prop) : (α : Type) → Read α → Prop
  | pure {α : Type} (a : α) : Program bare α (Pure.pure a)
  | throw {α : Type} (e : WireError) : Program bare α (MonadExcept.throw e)
  | bind {α β : Type} {act : Read α} {next : α → Read β} :
      Program bare α act → (∀ a, Program bare β (next a)) → Program bare β (act >>= next)
  | attempt {α : Type} {act : Read α} : Program bare α act → Program bare _ (attempt act)
  | look : Program bare Decoder get
  | fixed (k : Nat) : Program bare Bytes (fixed k)
  | content (k : Nat) : Program bare Bytes (content k)
  | level {α : Type} {act : Read α} : Program bare α act → Program bare α (level act)
  | enter (h : bare) : Program bare Unit enter
  | leave (h : bare) : Program bare Unit leave

variable {bare : Prop} {act : Read α} {next : α → Read β} {d d' : Decoder}

/-! ## What is left behind -/

theorem after_of_ok {a : α} (h : act d = .ok a d') : act.after d = d' := by rw [after, h]

theorem after_of_error {e : WireError} (h : act d = .error e d') : act.after d = d' := by
  rw [after, h]

theorem after_attempt : act.attempt.after d = act.after d := by
  unfold after attempt
  cases act d <;> rfl

theorem after_level :
    (level act).after d = if 0 < d.levels then (act.after d.deeper).shallower else d := by
  rw [after, level_apply, after]
  split_ifs
  · cases act d.deeper <;> rfl
  · rfl

end Read

/-! ## Accounts of the depth -/

namespace Decoder

/-- **What becomes of the depth:** under the same limits it stays within them, and without bare
levels it stays what it was. -/
structure Accounted (bare : Prop) (d d' : Decoder) : Prop where
  limits : d'.limits = d.limits
  within : d.depth ≤ d.limits.maxDepth.toNat → d'.depth ≤ d.limits.maxDepth.toNat
  depth : ¬ bare → d'.depth = d.depth

variable {bare : Prop} {d d₁ d₂ : Decoder}

namespace Accounted

theorem of_eq (hl : d₁.limits = d.limits) (hd : d₁.depth = d.depth) : d.Accounted bare d₁ :=
  ⟨hl, fun h => hd ▸ h, fun _ => hd⟩

theorem refl (d : Decoder) : d.Accounted bare d := .of_eq rfl rfl

theorem trans (h₁ : d.Accounted bare d₁) (h₂ : d₁.Accounted bare d₂) : d.Accounted bare d₂ := by
  constructor
  · exact h₂.limits.trans h₁.limits
  · intro h
    have h' := h₂.within
    rw [h₁.limits] at h'
    exact h' (h₁.within h)
  · intro h
    exact (h₂.depth h).trans (h₁.depth h)

/-- A level is open inside and closed behind. -/
theorem level (hr : 0 < d.levels) (h : d.deeper.Accounted bare d₁) :
    d.Accounted bare d₁.shallower := by
  constructor
  · exact h.limits
  · intro _
    have hin : d₁.depth ≤ d.limits.maxDepth.toNat := h.within (Nat.sub_pos_iff_lt.mp hr)
    exact Nat.le_trans (Nat.sub_le _ 1) hin
  · intro hb
    have hd : d₁.depth = d.depth + 1 := h.depth hb
    change d₁.depth - 1 = d.depth
    omega

/-- Without bare levels as many levels are left as before. -/
theorem levels (h : d.Accounted False d₁) : d₁.levels = d.levels := by
  unfold Decoder.levels
  rw [h.limits, h.depth not_false]

end Accounted

end Decoder

/-! ## Programs -/

namespace Read

variable {bare : Prop} {act : Read α}

namespace Program

/-- All readers are programs. -/
theorem closed : Closed (Program bare) where
  pure := .pure
  throw _ := .throw _
  bind := .bind
  limits h _ := .bind .look h
  position := .bind .look fun _ => .pure _
  levels := .bind .look fun _ => .bind .look fun _ => .pure _
  level := .level
  fixed := .fixed
  content := .content

/-- A typed message inside another is read by a program if its fields are. -/
theorem nested [Message α] (h : ∀ room, Program bare α (Message.read room)) :
    Program bare α (Read.nested α) := closed.bind closed.levels fun room => .level (h room)

/-- **Whatever a program does, the depth is accounted for,** also when it fails. -/
theorem accounted (h : Program bare α act) (d : Decoder) : d.Accounted bare (act.after d) := by
  induction h generalizing d with
  | pure a => exact .refl d
  | throw e => exact .refl d
  | look => exact .refl d
  | @bind _ _ act next _ _ ih ihn =>
    -- a failure of the first part is where the whole ends
    have hd := ih d
    cases ha : act d with
    | ok a d₁ =>
      rw [after_of_ok ha] at hd
      have hb : (act >>= next).after d = (next a).after d₁ := by rw [after, bind_ok ha, after]
      rw [hb]
      exact hd.trans (ihn a d₁)
    | error e d₁ =>
      rw [after_of_error ha] at hd
      rwa [after_of_error (bind_error ha)]
  | attempt _ ih =>
    rw [after_attempt]
    exact ih d
  | fixed k =>
    unfold after Read.fixed
    cases d.source.exactly k with
    | mk answer source => cases answer <;> exact .of_eq rfl rfl
  | content k =>
    unfold after Read.content
    cases d.source.upTo k with
    | mk answer source =>
      cases answer with
      | ok bs =>
        dsimp only
        split_ifs <;> exact .of_eq rfl rfl
      | error fault => exact .of_eq rfl rfl
  | level _ ih =>
    rw [after_level]
    split_ifs with hr
    · exact .level hr (ih d.deeper)
    · exact .refl d
  | enter hb =>
    rw [after, enter_apply]
    split_ifs with hr
    · exact ⟨rfl, fun _ => Nat.sub_pos_iff_lt.mp hr, fun h => absurd hb h⟩
    · exact .refl d
  | leave hb => exact ⟨rfl, Nat.le_trans (Nat.sub_le _ 1), fun h => absurd hb h⟩

end Program

/-- **An action that leaves the depth as it was,** whether it fails or not. -/
def Balanced (act : Read α) : Prop := ∀ d, (act.after d).depth = d.depth

/-- A program without bare levels closes the levels that it has opened. -/
theorem Program.balanced (h : Program False α act) : act.Balanced :=
  fun d => (h.accounted d).depth not_false

/-- Within the limits a level can be opened exactly if the depth is not the greatest. -/
theorem enter_of_le {d : Decoder} (h : d.depth ≤ d.limits.maxDepth.toNat) :
    enter d = if d.depth = d.limits.maxDepth.toNat then .error (.tooDeep d.limits.maxDepth) d
      else .ok () d.deeper := by
  rw [enter_apply, Decoder.levels]
  split_ifs <;> first | rfl | omega

end Read

end MessageWire
