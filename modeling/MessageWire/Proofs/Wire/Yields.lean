import MessageWire.Proofs.Wire.Read

/-!
# What a reader answers

What holds of the answers of a reader on any source, where its errors are about the input and never
about the schema.

* `WireError.OfInput`: the errors that are about the input;
* `Yields`: the answers and the errors of a reader, `Yields.bind`, `Yields.level`, `Yields.times`;
* `yields_text`, **`yields_scalar`**: a scalar is of its kind;
* `Yields.run`: a whole run.
-/

namespace MessageWire

/-- The error is about the input. The other errors are about a field that a schema lacks, or about a
value that does not fit into a field. -/
def WireError.OfInput : WireError → Prop
  | lengthMismatch .. | typeMismatch .. | unknownField _ => False
  | _ => True

variable {α β : Type}

/-- **From any decoder** the answers of the reader satisfy `P`, and its errors are about the
input. -/
def Yields (P : α → Prop) (act : Read α) : Prop :=
  ∀ d, match act d with
    | .ok a _ => P a
    | .error e _ => e.OfInput

namespace Yields

variable {P : α → Prop} {Q : β → Prop} {act : Read α}

theorem pure {a : α} (h : P a) : Yields P (Pure.pure a) := fun _ => h

theorem throw {e : WireError} (h : e.OfInput) : Yields P (MonadExcept.throw e) := fun _ => h

/-- **Two readers in sequence.** -/
theorem bind {next : α → Read β} (h : Yields P act) (hn : ∀ a, P a → Yields Q (next a)) :
    Yields Q (act >>= next) := by
  intro d
  have hd := h d
  cases ha : act d with
  | ok a d' =>
    rw [ha] at hd
    rw [bind_ok ha]
    exact hn a hd d'
  | error e d' =>
    rw [ha] at hd
    rw [bind_error ha]
    exact hd

theorem mono {P' : α → Prop} (h : Yields P act) (hP : ∀ a, P a → P' a) : Yields P' act := by
  have hmap := h.bind fun a ha => pure (hP a ha)
  rwa [bind_pure] at hmap

theorem map {f : α → β} (h : Yields P act) (hf : ∀ a, P a → Q (f a)) :
    Yields Q (do return f (← act)) := h.bind fun a ha => .pure (hf a ha)

/-- A reader that looks at the decoder does not change it. -/
theorem get {next : Decoder → Read α} (h : ∀ d, Yields P (next d)) :
    Yields P (MonadState.get >>= next) := fun d => h d d

/-- A reader that is refused under a condition. -/
theorem guard {c : Prop} [Decidable c] {bad : Read α} {e : WireError}
    (hbad : bad = MonadExcept.throw e) (he : e.OfInput) (h : Yields P act) :
    Yields P (if c then bad else act) := by
  by_cases hc : c
  · rw [if_pos hc, hbad]
    exact .throw he
  · rwa [if_neg hc]

/-- **A reader on a level of its own.** -/
theorem level (h : Yields P act) : Yields P (Read.level act) := by
  intro d
  rw [Read.level_apply]
  by_cases hr : 0 < d.levels
  · have hd := h d.deeper
    rw [if_pos hr]
    cases ha : act d.deeper with
    | ok a d' =>
      rw [ha] at hd
      exact hd
    | error e d' =>
      rw [ha] at hd
      exact hd
  · rw [if_neg hr]
    trivial

/-- **A reader for every element of an array.** -/
theorem times (h : Yields P act) (k : Nat) : Yields (fun _ => True) (Read.times k act) := by
  induction k with
  | zero => exact .pure trivial
  | succ k ih =>
    rw [Read.times_succ]
    exact h.bind fun a _ => ih.map fun _ _ => trivial

/-- A whole run. -/
theorem run (h : Yields P act) {source left : Source} {limits : Limits} {e : WireError}
    (hr : act.run source limits = (.error e, left)) : e.OfInput := by
  have hd := h (.new source limits)
  rw [Read.run] at hr
  cases ha : act (.new source limits) with
  | ok a d' =>
    rw [ha] at hr
    cases hr
  | error e' d' =>
    rw [ha] at hr hd
    cases hr
    exact hd

end Yields

/-! ## The forms on the wire -/

theorem Read.ofFault_ofInput (offset needed : Nat) (fault : Fault) :
    (Read.ofFault offset needed fault).OfInput := by
  rw [Read.ofFault]
  cases fault.kind <;> trivial

/-- Bytes that must be complete. -/
theorem yields_fixed (k : Nat) : Yields (fun _ => True) (Read.fixed k) := by
  intro d
  rw [Read.fixed]
  cases d.source.exactly k with
  | mk answer source =>
    cases answer with
    | ok bs => trivial
    | error fault => exact Read.ofFault_ofInput ..

/-- The bytes of a content. -/
theorem yields_content (k : Nat) : Yields (fun _ => True) (Read.content k) := by
  intro d
  rw [Read.content]
  cases d.source.upTo k with
  | mk answer source =>
    cases answer with
    | ok bs =>
      by_cases hlt : bs.length < k
      · simp only [if_pos hlt]
        trivial
      · simp only [if_neg hlt]
    | error fault => exact Read.ofFault_ofInput ..

theorem yields_word (w : Nat) : Yields (fun _ => True) (Read.word w) :=
  (yields_fixed w).map fun _ _ => trivial

theorem yields_byte : Yields (fun _ => True) Read.byte := (yields_word 1).map fun _ _ => trivial

theorem yields_int32 : Yields (fun _ => True) Read.int32 := (yields_word 4).map fun _ _ => trivial

theorem yields_text : Yields (fun _ => True) Read.text := by
  refine .get fun start => yields_int32.bind fun v _ => ?_
  refine .get fun d => .guard rfl trivial (.get fun offset => ?_)
  refine (yields_content _).bind fun bytes _ => yields_byte.bind fun _ _ => ?_
  cases bytes.findIdx? (· == terminator) with
  | some i => exact .throw trivial
  | none =>
    cases ofUtf8? bytes with
    | some s => exact .pure trivial
    | none => exact .throw trivial

/-- **A scalar** is of the kind that is read. -/
theorem yields_scalar (p : Primitive) : Yields (fun v => v.kind = p) (Read.scalar p) := by
  cases p with
  | text => exact yields_text.map fun _ _ => rfl
  | boolean => exact (yields_byte.map (Q := fun _ => True) fun _ _ => trivial).map fun _ _ => rfl
  | byte => exact yields_byte.map fun _ _ => rfl
  | _ => exact ((yields_word _).map (Q := fun _ => True) fun _ _ => trivial).map fun _ _ => rfl

theorem yields_expect (schema : String) (expected : Fingerprint) :
    Yields (fun _ => True) (Read.expect schema expected) :=
  ((yields_fixed _).map (Q := fun _ => True) fun _ _ => trivial).bind fun _ _ =>
    .guard rfl trivial (.pure trivial)

theorem yields_countAt (k : Int) (offset : Nat) :
    Yields (fun _ => True) (Read.countAt k offset) :=
  .get fun _ => .guard rfl trivial (.pure trivial)

end MessageWire
