import MessageWire.Proofs.Wire.Closed
import MessageWire.Proofs.Wire.Read

/-!
# How the bytes come in

A reader does not notice in which pieces a source hands out its bytes. It notices a failure of the
source only where bytes are missing, and there it reports the failure instead.

* `Fault.Lasting`: a failure that is neither the end of the input nor a request to try again;
* `Source.report`: an error as it is reported on a source;
* `Delivers`: a reader on a source and on the same bytes in memory, `Delivers.bind`,
  `Delivers.level`, `Delivers.run_ok`, `Delivers.run`;
* **`closed_delivers`**: all readers.
-/

namespace MessageWire

/-- A failure that is neither the end of the input nor a request to try again. -/
def Fault.Lasting (fault : Fault) : Prop :=
  fault.kind ≠ .endOfInput ∧ fault.kind ≠ .other "Interrupted"

namespace Source

/-- If the source fails at its end, it does so for good. -/
def Lasting (s : Source) : Prop := ∀ fault, s.fault? = some fault → fault.Lasting

/-- **An error on a source:** where bytes are missing, the failure of the source is reported
instead. -/
def report (s : Source) : WireError → WireError
  | .truncated offset needed => match s.fault? with
    | none => .truncated offset needed
    | some fault => .io fault
  | e => e

theorem report_of_ne {s : Source} {e : WireError}
    (h : ∀ offset needed, e ≠ .truncated offset needed) : s.report e = e := by
  cases e with
  | truncated offset needed => exact absurd rfl (h offset needed)
  | _ => rfl

/-- A source that does not fail reports every error as it is. -/
theorem report_of_fault?_eq_none {s : Source} (hf : s.fault? = none) (e : WireError) :
    s.report e = e := by
  cases e with
  | truncated offset needed => simp only [report, hf]
  | _ => rfl

/-- The failure of a source is an error as it is reported for any bytes that are missing. -/
theorem Lasting.ofFault {s : Source} (h : s.Lasting) {fault : Fault} (hf : s.fault? = some fault)
    (offset needed offset' needed' : Nat) :
    Read.ofFault offset needed fault = s.report (.truncated offset' needed') := by
  have hk := (h fault hf).1
  simp only [Read.ofFault, report, hf]

end Source

namespace Decoder

/-- The decoder in front of a source. -/
def on (d : Decoder) (source : Source) : Decoder := { d with source }

end Decoder

/-- **A reader on a source** comes to an answer only if it comes to the same on the same bytes in
memory, where it leaves the same bytes. If every read of the source gets something, it comes to an
error only if it does so in memory; it is the error that is reported on the source, if that does not
go on after a failure. -/
def Delivers {α : Type} (act : Read α) : Prop :=
  ∀ (d : Decoder) (s : Source), match act (d.on s) with
    | .ok a d₁ => ∃ reads rest, d₁.source = s.passed reads rest ∧
        act (d.facing s.rest) = .ok a (d₁.facing rest)
    | .error e d₁ => s.pieces.Positive → ∃ reads rest e' d₂, d₁.source = s.passed reads rest ∧
        d₂.source = .memory rest ∧ act (d.facing s.rest) = .error e' d₂ ∧
        (s.Lasting → e = s.report e')

variable {α β : Type}

namespace Delivers

variable {act : Read α}

theorem pure (a : α) : Delivers (Pure.pure a : Read α) :=
  fun _ s => ⟨0, s.rest, (Source.passed_zero rfl).symm, rfl⟩

theorem throw {e : WireError} (he : ∀ offset needed, e ≠ .truncated offset needed) :
    Delivers (MonadExcept.throw e : Read α) := fun d s _ =>
  ⟨0, s.rest, e, d.facing s.rest, (Source.passed_zero rfl).symm, rfl, rfl,
    fun _ => (Source.report_of_ne he).symm⟩

/-- **Two readers in sequence.** The second goes on where the first has stopped, on the source as in
memory. -/
theorem bind {next : α → Read β} (h : Delivers act) (hn : ∀ a, Delivers (next a)) :
    Delivers (act >>= next) := by
  intro d s
  have hd := h d s
  cases ha : act (d.on s) with
  | error e d₁ =>
    rw [ha] at hd
    rw [bind_error ha]
    intro hs
    obtain ⟨reads, rest, e', d₂, h₁, h₂, hm, he⟩ := hd hs
    exact ⟨reads, rest, e', d₂, h₁, h₂, bind_error hm, he⟩
  | ok a d₁ =>
    rw [ha] at hd
    obtain ⟨reads, rest, h₁, hm⟩ := hd
    have hd₁ : d₁ = d₁.on (s.passed reads rest) := by rw [Decoder.on, ← h₁]
    have hnext := hn a d₁ (s.passed reads rest)
    rw [← hd₁] at hnext
    rw [bind_ok ha, bind_ok hm]
    cases hb : next a d₁ with
    | error e d₂ =>
      rw [hb] at hnext
      intro hs
      obtain ⟨reads', rest', e', d₃, h₂, h₃, hm', he⟩ := hnext (hs.drop reads)
      exact ⟨reads + reads', rest', e', d₃, h₂.trans (Source.passed_passed ..), h₃, hm', he⟩
    | ok b d₂ =>
      rw [hb] at hnext
      obtain ⟨reads', rest', h₂, hm'⟩ := hnext
      exact ⟨reads + reads', rest', h₂.trans (Source.passed_passed ..), hm'⟩

/-- An action that looks at the limits. -/
theorem limits {next : Decoder → Read α} (h : ∀ d, Delivers (next d))
    (hs : ∀ (d : Decoder) (source : Source), next { d with source } = next d) :
    Delivers (get >>= next) := by
  intro d s
  have hd := h d d s
  have hm : (get >>= next) (d.facing s.rest) = next d (d.facing s.rest) :=
    congrFun (hs d (.memory s.rest)) _
  have hv : (get >>= next) (d.on s) = next d (d.on s) := congrFun (hs d s) _
  rwa [hm, hv]

theorem position : Delivers Read.position :=
  fun _ s => ⟨0, s.rest, (Source.passed_zero rfl).symm, rfl⟩

theorem levels : Delivers Read.levels :=
  fun _ s => ⟨0, s.rest, (Source.passed_zero rfl).symm, rfl⟩

/-- **A reader on a level of its own.** -/
theorem level (h : Delivers act) : Delivers (Read.level act) := by
  intro d s
  have hd := h d.deeper s
  rw [Read.level_facing, Read.level_apply, show (d.on s).levels = d.levels from rfl,
    show (d.on s).deeper = d.deeper.on s from rfl]
  by_cases hr : 0 < d.levels
  · rw [if_pos hr, if_pos hr]
    cases ha : act (d.deeper.on s) with
    | ok a d₁ =>
      rw [ha] at hd
      obtain ⟨reads, rest, h₁, hm⟩ := hd
      refine ⟨reads, rest, h₁, ?_⟩
      rw [hm]
      rfl
    | error e d₁ =>
      rw [ha] at hd
      intro hs
      obtain ⟨reads, rest, e', d₂, h₁, h₂, hm, he⟩ := hd hs
      refine ⟨reads, rest, e', d₂.shallower, h₁, h₂, ?_, he⟩
      rw [hm]
  · rw [if_neg hr, if_neg hr]
    exact fun _ => ⟨0, s.rest, _, _, (Source.passed_zero rfl).symm, rfl, rfl, fun _ => rfl⟩

/-! ## Bytes -/

theorem fixed (k : Nat) : Delivers (Read.fixed k) := by
  intro d s
  rw [Read.fixed, Read.fixed_facing, show (d.on s).source = s from rfl, Source.exactly_eq]
  obtain ⟨reads, hk, h⟩ | ⟨reads, bs, rest, hk, h, hend⟩ | ⟨reads, fault, hk, h, hf⟩ :=
    s.upTo_cases k
  · rw [h]
    dsimp only
    rw [List.length_take_of_le hk, if_neg (Nat.lt_irrefl k), if_pos hk]
    exact ⟨reads, s.rest.drop k, rfl, rfl⟩
  · rw [h]
    dsimp only
    rw [if_pos hk]
    intro hs
    obtain ⟨rfl, rfl, hf⟩ := hend hs
    exact ⟨reads, [], _, _, rfl, rfl, if_neg (Nat.not_le.mpr hk),
      fun _ => (Source.report_of_fault?_eq_none hf _).symm⟩
  · rw [h]
    exact fun _ => ⟨reads, [], _, _, rfl, rfl, if_neg (Nat.not_le.mpr hk),
      fun hl => hl.ofFault hf ..⟩

/-- A content that the source does not complete: at its end the offset moves by what there was, at a
failure it stays. -/
theorem content (k : Nat) : Delivers (Read.content k) := by
  intro d s
  rw [Read.content, Read.content_facing, show (d.on s).source = s from rfl]
  obtain ⟨reads, hk, h⟩ | ⟨reads, bs, rest, hk, h, hend⟩ | ⟨reads, fault, hk, h, hf⟩ :=
    s.upTo_cases k
  · rw [h]
    dsimp only
    rw [List.length_take_of_le hk, if_neg (Nat.lt_irrefl k), if_pos hk]
    exact ⟨reads, s.rest.drop k, rfl, rfl⟩
  · rw [h]
    dsimp only
    rw [if_pos hk]
    intro hs
    obtain ⟨rfl, rfl, hf⟩ := hend hs
    exact ⟨reads, [], _, _, rfl, rfl, if_neg (Nat.not_le.mpr hk),
      fun _ => (Source.report_of_fault?_eq_none hf _).symm⟩
  · rw [h]
    exact fun _ => ⟨reads, [], _, _, rfl, rfl, if_neg (Nat.not_le.mpr hk),
      fun hl => hl.ofFault hf ..⟩

/-! ## Whole runs -/

/-- What is read from a source is read from the same bytes in memory. -/
theorem run_ok (h : Delivers act) {s left : Source} {L : Limits} {a : α}
    (ha : act.run s L = (.ok a, left)) :
    ∃ rest, act.run (.memory s.rest) L = (.ok a, .memory rest) := by
  have hd := h (.new (.memory []) L) s
  rw [show (Decoder.new (.memory []) L).on s = .new s L from rfl] at hd
  rw [Read.run] at ha
  cases hs : act (.new s L) with
  | ok b d₁ =>
    rw [hs] at hd ha
    cases ha
    obtain ⟨reads, rest, -, hm⟩ := hd
    exact ⟨rest, Read.run_of_ok hm⟩
  | error e d₁ =>
    rw [hs] at ha
    cases ha

/-- **A whole run** on a source where every read gets something, and on the same bytes in memory. -/
theorem run (h : Delivers act) {s : Source} (hs : s.pieces.Positive) (L : Limits) :
    ∃ reads rest o o', act.run (.memory s.rest) L = (o, .memory rest) ∧
      act.run s L = (o', s.passed reads rest) ∧ (s.Lasting → o' = o.mapError s.report) := by
  have hd := h (.new (.memory []) L) s
  rw [show (Decoder.new (.memory []) L).on s = .new s L from rfl] at hd
  cases ha : act (.new s L) with
  | ok a d₁ =>
    rw [ha] at hd
    obtain ⟨reads, rest, h₁, hm⟩ := hd
    refine ⟨reads, rest, .ok a, .ok a, Read.run_of_ok hm, ?_, fun _ => rfl⟩
    rw [Read.run, ha, ← h₁]
  | error e d₁ =>
    rw [ha] at hd
    obtain ⟨reads, rest, e', d₂, h₁, h₂, hm, he⟩ := hd hs
    refine ⟨reads, rest, .error e', .error e, ?_, ?_, fun hl => congrArg _ (he hl)⟩
    · rw [Read.run_of_error hm, h₂]
    · rw [Read.run, ha, ← h₁]

end Delivers

/-- **Every reader** does on a source what it does in memory. -/
theorem closed_delivers : Read.Closed fun _ act => Delivers act where
  pure := Delivers.pure
  throw := Delivers.throw
  bind := Delivers.bind
  limits := Delivers.limits
  position := Delivers.position
  levels := Delivers.levels
  level := Delivers.level
  fixed := Delivers.fixed
  content := Delivers.content

end MessageWire
