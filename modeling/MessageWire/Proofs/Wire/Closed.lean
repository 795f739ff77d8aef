import MessageWire.Wire.Read

/-!
# Properties of all readers

A reader is built from a few actions by putting them in sequence and on levels of their own. What
holds of these, and is kept by sequence and by levels, holds of every reader.

* `Read.Closed`: such a property of actions, `Read.Closed.guard`, `Read.Closed.times`;
* `Read.Closed.text`, **`Read.Closed.scalar`**, `Read.Closed.expect`, `Read.Closed.countAt`: the
  forms on the wire.
-/

namespace MessageWire.Read

/-- **A property that readers are closed under:** it holds of the actions that take bytes, of
answers, and of failures other than missing bytes; it is kept by sequence and by a level. An action
may choose what to do by the limits, but not by the source. -/
structure Closed (P : ∀ α : Type, Read α → Prop) : Prop where
  pure : ∀ {α : Type} (a : α), P α (Pure.pure a)
  throw : ∀ {α : Type} {e : WireError}, (∀ offset needed, e ≠ .truncated offset needed) →
    P α (MonadExcept.throw e)
  bind : ∀ {α β : Type} {act : Read α} {next : α → Read β}, P α act → (∀ a, P β (next a)) →
    P β (act >>= next)
  limits : ∀ {α : Type} {next : Decoder → Read α}, (∀ d, P α (next d)) →
    (∀ (d : Decoder) (source : Source), next { d with source } = next d) → P α (get >>= next)
  position : P Nat position
  levels : P Nat levels
  level : ∀ {α : Type} {act : Read α}, P α act → P α (level act)
  fixed : ∀ k, P Bytes (fixed k)
  content : ∀ k, P Bytes (content k)

namespace Closed

variable {P : ∀ α : Type, Read α → Prop} {α β : Type} {act : Read α}

theorem map (hP : Closed P) (h : P α act) (f : α → β) : P β (do return f (← act)) :=
  hP.bind h fun a => hP.pure (f a)

/-- An action that is refused under a condition. -/
theorem guard (hP : Closed P) {c : Prop} [Decidable c] {bad : Read α} {e : WireError}
    (hbad : bad = MonadExcept.throw e) (he : ∀ offset needed, e ≠ .truncated offset needed)
    (h : P α act) : P α (if c then bad else act) := by
  by_cases hc : c
  · rw [if_pos hc, hbad]
    exact hP.throw he
  · rwa [if_neg hc]

/-- **An action for every element of an array.** -/
theorem times (hP : Closed P) (h : P α act) (k : Nat) : P (List α) (Read.times k act) := by
  induction k with
  | zero => exact hP.pure []
  | succ k ih =>
    rw [Read.times_succ]
    exact hP.bind h fun a => hP.map ih (a :: ·)

/-! ## The forms on the wire -/

theorem word (hP : Closed P) (w : Nat) : P Nat (Read.word w) := hP.map (hP.fixed w) _

theorem byte (hP : Closed P) : P UInt8 Read.byte := hP.map (hP.word 1) _

theorem int32 (hP : Closed P) : P Int32 Read.int32 := hP.map (hP.word 4) _

theorem text (hP : Closed P) : P String Read.text := by
  refine hP.bind hP.position fun start => hP.bind hP.int32 fun v => ?_
  refine hP.limits (fun d => hP.guard rfl nofun (hP.bind hP.position fun offset => ?_))
    fun _ _ => rfl
  refine hP.bind (hP.content _) fun bytes => hP.bind hP.byte fun _ => ?_
  cases bytes.findIdx? (· == terminator) with
  | some i => exact hP.throw nofun
  | none =>
    cases ofUtf8? bytes with
    | some s => exact hP.pure s
    | none => exact hP.throw nofun

/-- **A scalar** of any kind. -/
theorem scalar (hP : Closed P) (p : Primitive) : P Scalar (Read.scalar p) := by
  cases p with
  | text => exact hP.map hP.text _
  | boolean => exact hP.map (hP.map hP.byte _) _
  | byte => exact hP.map hP.byte _
  | _ => exact hP.map (hP.map (hP.word _) _) _

theorem expect (hP : Closed P) (schema : String) (expected : Fingerprint) :
    P Unit (Read.expect schema expected) :=
  hP.bind (hP.map (hP.fixed _) _) fun _ => hP.guard rfl nofun (hP.pure ())

theorem countAt (hP : Closed P) (k : Int) (offset : Nat) : P Nat (Read.countAt k offset) :=
  hP.limits (fun _ => hP.guard rfl nofun (hP.pure k.toNat)) fun _ _ => rfl

end Closed

end MessageWire.Read
