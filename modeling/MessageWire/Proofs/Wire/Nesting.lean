import Mathlib.Logic.Function.Iterate
import MessageWire.Proofs.Wire.Depth

/-!
# Messages inside messages

Readers of messages call each other for the messages inside, and may do so without end. As they do
it on levels, a decoder with few levels left does not get far.

* `Read.SameDown`: actions that a decoder cannot tell apart when it has few levels left,
  `SameDown.bind`, `SameDown.level`, `SameDown.below`;
* `Read.Nests`: actions that read the messages inside on levels of their own, **`Nests.sameDown`**;
* `Read.whole`: readers that call themselves, as far as the levels reach, `Read.level_room`;
* `Read.Ends`, **`Read.ends_whole`**: what would be read further in does not matter.
-/

namespace MessageWire.Read

variable {α β : Type}

/-! ## Few levels -/

/-- **Actions that are the same down to `k` levels:** a decoder that has no more of them left cannot
tell the actions apart. -/
def SameDown (k : Nat) (act act' : Read α) : Prop := ∀ d : Decoder, d.levels ≤ k → act' d = act d

namespace SameDown

variable {k : Nat} {act act' : Read α}

theorem refl (act : Read α) : SameDown k act act := fun _ _ => rfl

/-- **Two pairs of actions in sequence.** The levels that the first leaves are those that it found. -/
theorem bind {next next' : α → Read β} (h : SameDown k act act') (hp : Program False α act)
    (hn : ∀ a, SameDown k (next a) (next' a)) : SameDown k (act >>= next) (act' >>= next') := by
  intro d hd
  have hl := (hp.accounted d).levels
  cases ha : act d with
  | ok a d₁ =>
    rw [after_of_ok ha] at hl
    rw [bind_ok ha, bind_ok ((h d hd).trans ha)]
    exact hn a d₁ (hl ▸ hd)
  | error e d₁ => rw [bind_error ha, bind_error ((h d hd).trans ha)]

theorem attempt (h : SameDown k act act') : SameDown k act.attempt act'.attempt := by
  intro d hd
  unfold Read.attempt
  rw [h d hd]

/-- Inside a level there is one less. -/
theorem level (h : SameDown k act act') : SameDown (k + 1) (level act) (level act') := by
  intro d hd
  have hin : d.deeper.levels ≤ k := by
    rw [Decoder.levels_deeper]
    omega
  rw [level_apply, level_apply, h d.deeper hin]

/-- Where there are no levels left, nothing is read on one. -/
theorem below (act act' : Read α) : SameDown 0 (Read.level act) (Read.level act') := by
  intro d hd
  have hr : ¬ 0 < d.levels := Nat.not_lt.mpr hd
  rw [level_apply, level_apply, if_neg hr, if_neg hr]

end SameDown

/-- An answer is put into another form on a level or behind it. -/
theorem level_map (act : Read α) (f : α → β) :
    level (do return f (← act)) = do return f (← level act) := by
  funext d
  rw [level_apply]
  have hl := level_apply act d
  by_cases hr : 0 < d.levels
  · rw [if_pos hr] at hl ⊢
    cases ha : act d.deeper with
    | ok a d₁ =>
      rw [ha] at hl
      rw [bind_ok ha, bind_ok hl]
      rfl
    | error e d₁ =>
      rw [ha] at hl
      rw [bind_error ha, bind_error hl]
  · rw [if_neg hr] at hl ⊢
    rw [bind_error hl]

/-! ## Messages inside -/

variable {ι : Type} {A : ι → Type}

/-- Readers of messages, one for every sort of them. -/
abbrev Readers (A : ι → Type) : Type := ∀ i, Read (A i)

/-- **An action that nests:** it is a program, in which messages inside are read on levels of their
own by readers that are given. -/
inductive Nests : {α : Type} → (Readers A → Read α) → Prop
  | program {α : Type} {act : Read α} : Program False α act → Nests fun _ => act
  | bind {α β : Type} {act : Readers A → Read α} {next : α → Readers A → Read β} :
      Nests act → (∀ a, Nests (next a)) → Nests fun inside => act inside >>= (next · inside)
  | attempt {α : Type} {act : Readers A → Read α} :
      Nests act → Nests fun inside => (act inside).attempt
  | level (i : ι) : Nests fun inside => level (inside i)

namespace Nests

variable {act : Readers A → Read α} {inside inside' : Readers A}

theorem map (h : Nests act) (f : α → β) : Nests fun inside => do return f (← act inside) :=
  .bind h fun a => .program (.pure (f a))

/-- **An action for every element of an array.** -/
theorem times (h : Nests act) (m : Nat) : Nests fun inside => Read.times m (act inside) := by
  induction m with
  | zero => exact .program (.pure [])
  | succ m ih =>
    simp only [Read.times_succ]
    exact .bind h fun a => ih.map (a :: ·)

/-- Given programs, it is one. -/
theorem program_of (h : Nests act) (hp : ∀ i, Program False _ (inside i)) :
    Program False _ (act inside) := by
  induction h with
  | program h => exact h
  | bind _ _ ih ihn => exact .bind ih ihn
  | attempt _ ih => exact .attempt ih
  | level i => exact .level (hp i)

/-- **What cannot be told apart inside cannot be told apart outside.** -/
theorem sameDown {k : Nat} (h : Nests act) (hp : ∀ i, Program False _ (inside i))
    (hi : ∀ i, SameDown k (Read.level (inside i)) (Read.level (inside' i))) :
    SameDown k (act inside) (act inside') := by
  induction h with
  | program h => exact .refl _
  | bind h _ ih ihn => exact ih.bind (h.program_of hp) ihn
  | attempt _ ih => exact ih.attempt
  | level i => exact hi i

end Nests

/-! ## Readers that call themselves -/

/-- Nothing is read, for want of levels. -/
def refused : Read α := do throw (.tooDeep (← get).limits.maxDepth)

/-- Readers that read the messages inside in their own way, as many of them inside each other as
there are levels left and one more. -/
def whole (body : Readers A → Readers A) : Readers A := fun i => do
  let room ← levels
  body^[room + 1] (fun _ => refused) i

/-- **Readers that come to an end:** they read the messages inside in their own way; and when some
way of reading is taken for the messages inside more others than there are levels left, it does not
matter which. -/
structure Ends (body : Readers A → Readers A) (readers : Readers A) : Prop where
  inside : body readers = readers
  below : ∀ bottom room i d, d.levels < room → body^[room] bottom i d = readers i d

section Recursion

variable {body : Readers A → Readers A} (h : ∀ i, Nests fun inside => body inside i)

include h

theorem program_iterate (room : Nat) (i : ι) :
    Program False _ (body^[room] (fun _ => refused) i) := by
  induction room generalizing i with
  | zero => exact .bind .look fun _ => .throw _
  | succ room ih =>
    rw [Function.iterate_succ_apply']
    exact (h i).program_of ih

theorem program_whole (i : ι) : Program False _ (whole body i) :=
  Program.closed.bind Program.closed.levels fun room => program_iterate h (room + 1) i

theorem sameDown_iterate (bottom : Readers A) (room : Nat) (i : ι) :
    SameDown room (body^[room + 1] (fun _ => refused) i) (body^[room + 1] bottom i) := by
  induction room generalizing i with
  | zero =>
    -- no level is left on which a message inside could be read
    exact (h i).sameDown (program_iterate h 0) fun j => .below _ _
  | succ room ih =>
    rw [Function.iterate_succ_apply', Function.iterate_succ_apply' body (room + 1)]
    exact (h i).sameDown (program_iterate h (room + 1)) fun j => (ih j).level

/-- **The levels that are left are enough.** -/
theorem iterate_of_lt (bottom : Readers A) {d : Decoder} {room : Nat} (hr : d.levels < room)
    (i : ι) : body^[room] bottom i d = whole body i d := by
  obtain ⟨more, rfl⟩ : ∃ more, room = d.levels + 1 + more := ⟨room - (d.levels + 1), by omega⟩
  rw [Function.iterate_add_apply]
  exact sameDown_iterate h (body^[more] bottom) d.levels i d (Nat.le_refl _)

/-- On a level of its own a message needs one reader less. -/
theorem sameDown_level (bottom : Readers A) (room : Nat) (i : ι) :
    SameDown room (level (whole body i)) (level (body^[room] bottom i)) := by
  cases room with
  | zero => exact .below _ _
  | succ room =>
    exact SameDown.level fun d hd => iterate_of_lt h bottom (Nat.lt_succ_of_le hd) i

/-- A reader that is told how many levels there are reads what it would read without. -/
theorem level_room (bottom : Readers A) (i : ι) :
    (do let room ← levels; level (body^[room] bottom i)) = level (whole body i) := by
  funext d
  exact sameDown_level h bottom d.levels i d (Nat.le_refl _)

/-- **Readers that call themselves on levels come to an end.** -/
theorem ends_whole : Ends body (whole body) := by
  refine ⟨?_, fun bottom room i d hr => iterate_of_lt h bottom hr i⟩
  funext i d
  have hin := (h i).sameDown (program_whole h) (sameDown_level h (fun _ => refused) d.levels)
  have hd := hin d (Nat.le_refl _)
  rw [← Function.iterate_succ_apply' body] at hd
  exact hd.symm

end Recursion

end MessageWire.Read
