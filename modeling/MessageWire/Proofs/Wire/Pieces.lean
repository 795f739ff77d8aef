import MessageWire.Proofs.Wire.Sink
import MessageWire.Proofs.Wire.Write

/-!
# Writing to any sink

What an encoder writes is a row of pieces that does not depend on the sink. A sink that fails cuts
the row, in the middle of a piece or between two, and the encoder stops there.

* `Encoder.offer`, `Write.Puts`: an encoder after a row of pieces, and the actions that write one,
  `Puts.bind_ok`, `Puts.bind_error`, `Streams.forM`;
* `Scalar.pieces`, `Write.puts_scalar`: one piece for a scalar, three for a text;
* **`Puts.into_eq`**: what an action leaves in any sink, by its pieces;
* `Call`, `Encoder.perform`: calls of an encoder one after the other, failed ones included,
  `Encoder.call_spec`, **`Encoder.perform_eq`**, **`Encoder.perform_held`**.
-/

namespace MessageWire

open EStateM (Result)

namespace Encoder

/-- The encoder after a row of pieces, up to the first that fails. Only complete ones count. -/
def offer (e : Encoder) (ps : List Bytes) : Encoder :=
  ⟨(e.sink.offer ps).2, e.position + (e.sink.offer ps).1.flatten.length⟩

variable {e : Encoder} {ps : List Bytes}

theorem offer_of_holds (h : e.sink.Holds ps.flatten) : e.offer ps = e.put ps.flatten := by
  rw [offer, Sink.offer_of_holds h]
  rfl

theorem offer_append_of_holds (h : e.sink.Holds ps.flatten) (qs : List Bytes) :
    e.offer (ps ++ qs) = (e.put ps.flatten).offer qs := by
  rw [offer, Sink.offer_append_of_holds h, List.flatten_append, List.length_append,
    ← Nat.add_assoc]
  rfl

theorem offer_append_of_not_holds (h : ¬ e.sink.Holds ps.flatten) (qs : List Bytes) :
    e.offer (ps ++ qs) = e.offer ps := by
  rw [offer, Sink.offer_append_of_not_holds h, offer]

end Encoder

namespace Write

variable {α β : Type}

/-- How an action ends: with a value, or with an error that may mention the position. -/
abbrev Ending (α : Type) := Except (Nat → WireError) α

/-- The end of an action at an encoder. -/
def Ending.reach (r : Ending α) (e : Encoder) : Result WireError Encoder α :=
  match r with
  | .ok a => .ok a e
  | .error f => .error (f e.position) e

/-- **The action writes the pieces `ps` and ends as `r`,** unless a piece fails. -/
def Puts (act : Write α) (ps : List Bytes) (r : Ending α) : Prop :=
  ∀ e, act e =
    if e.sink.Holds ps.flatten then r.reach (e.put ps.flatten)
    else .error (.io e.sink.fullFault) (e.offer ps)

variable {act : Write α} {next : α → Write β} {ps qs : List Bytes} {e : Encoder}

namespace Puts

/-- There is room for all the pieces. -/
theorem apply_of_holds {r : Ending α} (h : Puts act ps r) (he : e.sink.Holds ps.flatten) :
    act e = r.reach (e.put ps.flatten) := by rw [h e, if_pos he]

/-- There is no room for some piece. -/
theorem apply_of_not_holds {r : Ending α} (h : Puts act ps r) (he : ¬ e.sink.Holds ps.flatten) :
    act e = .error (.io e.sink.fullFault) (e.offer ps) := by rw [h e, if_neg he]

/-- An action that writes nothing, whatever the sink. -/
theorem of_apply {r : Ending α} (h : ∀ e, act e = r.reach e) : Puts act [] r := fun e => by
  rw [List.flatten_nil, if_pos e.sink.holds_nil, Encoder.put_nil, h]

theorem pure (a : α) : Puts (Pure.pure a) [] (.ok a) := of_apply fun _ => rfl

theorem throw (err : WireError) : Puts (MonadExcept.throw err : Write α) [] (.error fun _ => err) :=
  of_apply fun _ => rfl

theorem all (bs : Bytes) : Puts (Write.all bs) [bs] (.ok ()) := fun e => by
  rw [List.flatten_singleton]
  by_cases h : e.sink.Holds bs
  · rw [if_pos h, Write.all, Sink.write_eq, if_pos h, Sink.fill_of_holds h]
    rfl
  · rw [if_neg h, Write.all, Sink.write_eq, if_neg h, Encoder.offer,
      Sink.offer_cons_of_not_holds h]
    rfl

/-- One action after another. -/
theorem bind_ok {a : α} {r : Ending β} (h : Puts act ps (.ok a)) (hn : Puts (next a) qs r) :
    Puts (act >>= next) (ps ++ qs) r := fun e => by
  rw [List.flatten_append]
  by_cases hp : e.sink.Holds ps.flatten
  · rw [MessageWire.bind_ok (h.apply_of_holds hp), hn, Encoder.put_put,
      Encoder.offer_append_of_holds hp]
    simp only [Sink.holds_append_iff, and_iff_right hp]
    rfl
  · rw [MessageWire.bind_error (h.apply_of_not_holds hp), Encoder.offer_append_of_not_holds hp,
      if_neg fun hpq => hp (Sink.holds_append_iff.mp hpq).1]

/-- Nothing comes after an action that fails by itself. -/
theorem bind_error {f : Nat → WireError} (h : Puts act ps (.error f)) :
    Puts (act >>= next) ps (.error f) := fun e => by
  by_cases hp : e.sink.Holds ps.flatten
  · rw [if_pos hp]
    exact MessageWire.bind_error (h.apply_of_holds hp)
  · rw [if_neg hp]
    exact MessageWire.bind_error (h.apply_of_not_holds hp)

/-- **What an action leaves in a sink** are the first bytes of its pieces, as many as there is room
for. If that is all of them it ends in its own way, and otherwise with the failure of the sink. -/
theorem into_eq {act : Write Unit} {r : Ending Unit} (h : Puts act ps r) (sink : Sink) :
    into sink act =
      (if sink.Holds ps.flatten then r.mapError (· ps.flatten.length)
        else .error (.io sink.fullFault), sink.fill ps.flatten) := by
  by_cases hp : sink.Holds ps.flatten
  · rw [if_pos hp, into, h.apply_of_holds (e := .new sink) hp, Sink.fill_of_holds hp]
    cases r with
    | ok a => rfl
    | error f => exact congrArg (fun k => (Except.error (f k), _)) (Nat.zero_add _)
  · rw [if_neg hp, into, h.apply_of_not_holds (e := .new sink) hp]
    exact congrArg (Prod.mk _) (sink.snd_offer ps)

/-- Flushing changes nothing, unless it fails. -/
theorem into_flush {act : Write Unit} {r : Ending Unit} (h : Puts act ps r) (sink : Sink) :
    into sink (do act; flush) = into sink act ∨
      ∃ fault, sink.flushFault? = some fault ∧
        (into sink (do act; flush)).1 = .error (.io fault) := by
  by_cases hp : sink.Holds ps.flatten
  · have he := h.apply_of_holds (e := .new sink) hp
    cases r with
    | ok a =>
      -- the sink of the encoder that is flushed has the flush of the given one
      have hput : ((Encoder.new sink).put ps.flatten).sink.flushFault? = sink.flushFault? := rfl
      rw [into, into, MessageWire.bind_ok he, flush, hput, he]
      cases sink.flushFault? with
      | none => exact Or.inl rfl
      | some fault => exact Or.inr ⟨fault, rfl, rfl⟩
    | error f =>
      rw [into, into, MessageWire.bind_error he, he]
      exact Or.inl rfl
  · have he := h.apply_of_not_holds (e := .new sink) hp
    rw [into, into, MessageWire.bind_error he, he]
    exact Or.inl rfl

theorem into_flush_eq {act : Write Unit} {r : Ending Unit} (h : Puts act ps r) {sink : Sink}
    (hf : sink.flushFault? = none) : into sink (do act; flush) = into sink act := by
  obtain h | ⟨fault, hsome, -⟩ := h.into_flush sink
  · exact h
  · exact absurd (hf.symm.trans hsome) nofun

end Puts

/-- The action writes some pieces and ends in some way, whatever the sink. -/
def Streams (act : Write α) : Prop := ∃ ps r, Puts act ps r

namespace Streams

theorem pure (a : α) : Streams (Pure.pure a) := ⟨_, _, Puts.pure a⟩

theorem throw (err : WireError) : Streams (MonadExcept.throw err : Write α) :=
  ⟨_, _, Puts.throw err⟩

theorem bind (h : Streams act) (hn : ∀ a, Streams (next a)) : Streams (act >>= next) := by
  obtain ⟨ps, r, h⟩ := h
  cases r with
  | ok a =>
    obtain ⟨qs, r, hn⟩ := hn a
    exact ⟨ps ++ qs, r, h.bind_ok hn⟩
  | error f => exact ⟨ps, .error f, h.bind_error⟩

theorem forM {as : List α} {act : α → Write Unit} (h : ∀ a, Streams (act a)) :
    Streams (forM as act) := by
  induction as with
  | nil => exact .pure ()
  | cons a as ih => exact (h a).bind fun _ => ih

end Streams

end Write

/-! ## Scalars -/

/-- The pieces of a scalar: one, or the three of a text. A text that is refused has none. -/
def Scalar.pieces : Scalar → List Bytes
  | .text s =>
    if (Scalar.text s).Writable then
      [BigEndian.encode textLengthSize ((utf8 s).length + 1), utf8 s, [terminator]]
    else []
  | v => [wire v.cells]

theorem Scalar.pieces_of_not_writable {v : Scalar} (hv : ¬ v.Writable) : v.pieces = [] := by
  cases v with
  | text s => exact if_neg hv
  | _ => exact absurd trivial hv

namespace Write

/-- **A writable scalar is written in its pieces.** -/
theorem puts_scalar {v : Scalar} (hv : v.Writable) : Puts (scalar v) v.pieces (.ok ()) := by
  cases v with
  | text s =>
    intro e
    obtain ⟨hn, hl⟩ := id hv
    have h : Puts (do
          word textLengthSize ((utf8 s).length + 1)
          all (utf8 s)
          all [terminator]) (Scalar.text s).pieces (.ok ()) := by
      rw [Scalar.pieces, if_pos hv]
      exact (Puts.all _).bind_ok ((Puts.all _).bind_ok (Puts.all _))
    rw [← h e, scalar, text_apply, findIdx?_terminator_eq_none_iff.mpr hn]
    exact if_neg (by omega)
  | boolean v => cases v <;> exact Puts.all _
  | byte v =>
    have hb : BigEndian.encode 1 v.toNat = wire (Scalar.byte v).cells := by
      simp [BigEndian.encode, Scalar.cells]
    rw [scalar, word, hb]
    exact Puts.all _
  | _ =>
    change Puts (all _) [wire (Cell.contents _)] _
    rw [wire_contents]
    exact Puts.all _

/-- **A scalar that is not writable is refused** before anything is written. -/
theorem puts_scalar_error {v : Scalar} (hv : ¬ v.Writable) :
    ∃ f, Puts (scalar v) v.pieces (.error f) := by
  rw [Scalar.pieces_of_not_writable hv]
  cases v with
  | text s =>
    obtain ⟨i, hi, -⟩ | ⟨hn, hl, -⟩ := text_error (e := .new .memory) hv
    · refine ⟨fun position => .embeddedNul (position + textLengthSize + i),
        Puts.of_apply fun e => ?_⟩
      rw [scalar, text_apply, hi]
      rfl
    · refine ⟨fun position => .invalidLength .text (utf8 s).length position,
        Puts.of_apply fun e => ?_⟩
      rw [scalar, text_apply, findIdx?_terminator_eq_none_iff.mpr hn]
      exact if_pos hl
  | _ => exact absurd trivial hv

theorem exists_puts_scalar (v : Scalar) : ∃ r, Puts (scalar v) v.pieces r := by
  by_cases hv : v.Writable
  · exact ⟨_, puts_scalar hv⟩
  · obtain ⟨f, h⟩ := puts_scalar_error hv
    exact ⟨_, h⟩

/-- Scalars are written in their pieces, up to the first that is refused. -/
theorem exists_puts_scalars (vs : List Scalar) :
    ∃ r, Puts (forM vs scalar) ((vs.takeWhile (·.Writable)).flatMap Scalar.pieces) r := by
  induction vs with
  | nil => exact ⟨_, Puts.pure ()⟩
  | cons v vs ih =>
    obtain ⟨r, ih⟩ := ih
    rw [List.forM_cons]
    by_cases hv : v.Writable
    · rw [List.takeWhile_cons_of_pos (by simpa using hv), List.flatMap_cons]
      exact ⟨r, (puts_scalar hv).bind_ok ih⟩
    · obtain ⟨f, h⟩ := puts_scalar_error hv
      rw [List.takeWhile_cons_of_neg (by simpa using hv), List.flatMap_nil,
        ← Scalar.pieces_of_not_writable hv]
      exact ⟨.error f, h.bind_error⟩

end Write

/-! ## Calls in a row -/

/-- A call of an encoder. A message is the scalars that it consists of. -/
inductive Call
  | scalar (v : Scalar)
  | fingerprint (fp : Fingerprint)
  | message (vs : List Scalar)
  | flush

namespace Call

/-- What a call does. A message stops at the first scalar that is not written. -/
def write : Call → Write Unit
  | scalar v => Write.scalar v
  | fingerprint fp => Write.fingerprint fp
  | message vs => forM vs Write.scalar
  | flush => Write.flush

/-- The pieces that a call has for the sink, up to a scalar that is refused. -/
def pieces : Call → List Bytes
  | scalar v => v.pieces
  | fingerprint fp => [fp.toBytes]
  | message vs => (vs.takeWhile (·.Writable)).flatMap Scalar.pieces
  | flush => []

end Call

namespace Encoder

/-- The answer to a call, and the encoder after it. -/
def call (e : Encoder) (c : Call) : Except WireError Unit × Encoder :=
  match c.write e with
  | .ok () e => (.ok (), e)
  | .error err e => (.error err, e)

/-- Calls one after the other, whatever the answers. -/
def perform (e : Encoder) : List Call → List (Except WireError Unit) × Encoder
  | [] => ([], e)
  | c :: cs => ((e.call c).1 :: ((e.call c).2.perform cs).1, ((e.call c).2.perform cs).2)

end Encoder

/-- Rows of writes one after the other, the failed ones included: the writes that are complete, and
the sink after all of them. -/
def Sink.offerEach (s : Sink) : List (List Bytes) → List Bytes × Sink
  | [] => ([], s)
  | ps :: rows =>
    ((s.offer ps).1 ++ ((s.offer ps).2.offerEach rows).1, ((s.offer ps).2.offerEach rows).2)

namespace Call

theorem exists_puts {c : Call} (hc : c ≠ .flush) : ∃ r, c.write.Puts c.pieces r := by
  cases c with
  | scalar v => exact Write.exists_puts_scalar v
  | fingerprint fp => exact ⟨_, Write.Puts.all _⟩
  | message vs => exact Write.exists_puts_scalars vs
  | flush => exact absurd rfl hc

end Call

namespace Encoder

/-- **One call** offers its pieces to the sink. If they are not all complete the answer is a failure
of the sink. -/
theorem call_spec (e : Encoder) (c : Call) :
    (e.call c).2 = e.offer c.pieces ∧
      (e.sink.Holds c.pieces.flatten ∨ ∃ fault, (e.call c).1 = .error (.io fault)) := by
  by_cases hc : c = .flush
  · subst hc
    refine ⟨?_, Or.inl e.sink.holds_nil⟩
    rw [call, Call.write, Write.flush]
    cases e.sink.flushFault? <;> rfl
  · obtain ⟨r, h⟩ := Call.exists_puts hc
    by_cases hp : e.sink.Holds c.pieces.flatten
    · rw [call, h.apply_of_holds hp, offer_of_holds hp]
      cases r <;> exact ⟨rfl, Or.inl hp⟩
    · rw [call, h.apply_of_not_holds hp]
      exact ⟨rfl, Or.inr ⟨_, rfl⟩⟩

/-- **Calls in a row**, the failed ones included, offer all their pieces to the sink, and the
position is the size of those that are complete. -/
theorem perform_eq (e : Encoder) (cs : List Call) :
    (e.perform cs).2.sink = (e.sink.offerEach (cs.map Call.pieces)).2 ∧
      (e.perform cs).2.position =
        e.position + (e.sink.offerEach (cs.map Call.pieces)).1.flatten.length := by
  induction cs generalizing e with
  | nil => exact ⟨rfl, rfl⟩
  | cons c cs ih =>
    obtain ⟨hsink, hposition⟩ := ih (e.call c).2
    rw [(e.call_spec c).1] at hsink hposition
    rw [perform, List.map_cons, Sink.offerEach, (e.call_spec c).1]
    refine ⟨hsink, ?_⟩
    rw [hposition, List.flatten_append, List.length_append, ← Nat.add_assoc]
    rfl

/-- **The position never exceeds what the sink has taken,** and is just that as long as the sink
has not failed. -/
theorem perform_held (e : Encoder) (cs : List Call) :
    e.sink.held.size + (e.perform cs).2.position ≤ e.position + (e.perform cs).2.sink.held.size ∧
      ((∃ fault, .error (.io fault) ∈ (e.perform cs).1) ∨
        e.sink.held.size + (e.perform cs).2.position =
          e.position + (e.perform cs).2.sink.held.size) := by
  induction cs generalizing e with
  | nil => exact ⟨Nat.le_of_eq (Nat.add_comm ..), Or.inr (Nat.add_comm ..)⟩
  | cons c cs ih =>
    obtain ⟨hle, heq⟩ := ih (e.call c).2
    obtain ⟨hcall, hfault⟩ := e.call_spec c
    rw [perform]
    dsimp only
    have hheld : e.sink.held.size + (e.call c).2.position ≤
        e.position + (e.call c).2.sink.held.size := by
      have := e.sink.length_offer_le c.pieces
      rw [hcall, offer]
      dsimp only
      omega
    refine ⟨by omega, ?_⟩
    obtain hp | ⟨fault, hfault⟩ := hfault
    · have hput : (e.call c).2 = e.put c.pieces.flatten := hcall.trans (offer_of_holds hp)
      have hsize : (e.call c).2.sink.held.size =
          e.sink.held.size + c.pieces.flatten.length := by
        rw [hput]
        exact e.sink.size_add _
      have hposition : (e.call c).2.position = e.position + c.pieces.flatten.length := by
        rw [hput, put]
      obtain ⟨fault, hmem⟩ | hlater := heq
      · exact Or.inl ⟨fault, List.mem_cons_of_mem _ hmem⟩
      · exact Or.inr (by omega)
    · exact Or.inl ⟨fault, List.mem_cons.mpr (Or.inl hfault.symm)⟩

/-- A text on a sink of five bytes: its length is complete, its content is not. -/
example : ((new ⟨#[], some 5, none, none⟩).perform [.scalar (.text "ab"), .scalar (.byte 7)]).2 =
    ⟨⟨#[0, 0, 0, 3, 97], some 5, none, none⟩, 4⟩ := rfl

end Encoder

end MessageWire
