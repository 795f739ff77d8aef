import Mathlib.Algebra.Ring.Nat
import MessageWire.Proofs.Instance.Encode
import MessageWire.Proofs.Wire.Pieces

/-!
# Messages on any sink

The pieces of a message, and its own error if it has one, do not depend on the sink.

* `Node.streams_write`, `Instance.streams_encodeFields`: a message is written in pieces;
* `Instance.encode_into_eq`: what a sink with a capacity holds after a message,
  `Instance.encode_into_error`: its error there;
* **`sink_only_cuts`**: a sink that fails cuts the output of a message and stops the position.
-/

namespace MessageWire

variable {n : Nat} (G : Catalog n)

/-! ## Pieces -/

namespace Write

theorem streams_extent (s : Fin n) (siblings : List (Value n)) (field : String) (x : Extent) :
    Streams (extent G s siblings field x) := by
  cases x with
  | fixed size => exact .pure _
  | counted c =>
    suffices h : ∃ r : Ending Nat, ∀ e, extent G s siblings field (.counted c) e = r.reach e by
      obtain ⟨r, h⟩ := h
      exact ⟨[], r, Puts.of_apply h⟩
    simp only [extent_counted_apply]
    cases ((G s).index? c).bind (siblings[·]?) with
    | none => exact ⟨.error fun _ => _, fun e => rfl⟩
    | some v =>
      dsimp only
      cases v.toInt? with
      | none => exact ⟨.error fun _ => _, fun e => rfl⟩
      | some k =>
        by_cases hk : k < 0
        · exact ⟨.error fun position => .invalidLength .array k position, fun e => if_pos hk⟩
        · exact ⟨.ok k.toNat, fun e => if_neg hk⟩

end Write

/-- A node writes pieces that do not depend on the sink. -/
theorem Node.streams_write (a : Node n) : (a.write G).Streams := by
  obtain ⟨m, field, kind, v⟩ := a
  cases v with
  | scalar v =>
    cases kind with
    | primitive p =>
      rw [write]
      dsimp only
      split
      · exact ⟨_, Write.exists_puts_scalar v⟩
      · exact Write.Streams.throw _
    | _ => exact Write.Streams.throw _
  | message u values =>
    cases kind with
    | message t =>
      rw [write]
      dsimp only
      split
      · exact Write.Streams.pure ()
      · exact Write.Streams.throw _
    | _ => exact Write.Streams.throw _
  | array items =>
    cases kind with
    | array element x =>
      refine (Write.streams_extent G m.schema m.values field x).bind fun k => ?_
      by_cases hk : items.length ≠ k
      · rw [if_pos hk]
        exact Write.Streams.throw _
      · rw [if_neg hk]
        exact Write.Streams.pure ()
    | _ => exact Write.Streams.throw _

namespace Instance

variable {G} {m : Instance n}

theorem streams_encodeFields : (m.encodeFields G).Streams := by
  rw [encodeFields_eq_forM]
  exact .forM (Node.streams_write G)

/-- A message but for the flush. -/
theorem exists_encode_eq (G : Catalog n) (m : Instance n) :
    ∃ act ps r, act.Puts ps r ∧ m.encode G = (do act; Write.flush) := by
  have hfp : (Write.fingerprint (G.fingerprint m.schema)).Streams := ⟨_, _, .all _⟩
  obtain ⟨ps, r, h⟩ := hfp.bind fun _ => streams_encodeFields (G := G) (m := m)
  exact ⟨_, ps, r, h, (bind_assoc ..).symm⟩

/-- **What a message leaves in a sink:** the first bytes of what it leaves in one that is never
full, with the same answer if they fit and a failure of the sink if they do not. -/
theorem encode_into_eq (m : Instance n) {sink : Sink} (hf : sink.flushFault? = none) :
    (m.encode G).into sink =
      (if sink.Holds ((m.encode G).into .memory).2.held.toList then ((m.encode G).into .memory).1
        else .error (.io sink.fullFault), sink.fill ((m.encode G).into .memory).2.held.toList) := by
  obtain ⟨act, ps, r, h, he⟩ := exists_encode_eq G m
  have hroom : Sink.memory.Holds ps.flatten := Sink.holds_of_capacity_eq_none rfl _
  rw [he, h.into_flush_eq hf, h.into_flush_eq rfl, h.into_eq, h.into_eq, if_pos hroom,
    Sink.fill_of_holds hroom]
  simp [Sink.add, Sink.memory]

/-- **The error of a message on any sink** is a failure of the sink or the message's own. -/
theorem encode_into_error {sink : Sink} {err : WireError}
    (h : ((m.encode G).into sink).1 = .error err) :
    (∃ fault, err = .io fault) ∨ m.toBytes G = .error err := by
  obtain ⟨act, ps, r, hputs, he⟩ := exists_encode_eq G m
  have hroom : Sink.memory.Holds ps.flatten := Sink.holds_of_capacity_eq_none rfl _
  rw [he] at h
  rw [toBytes, Write.toBytes, he, hputs.into_flush_eq rfl, hputs.into_eq, if_pos hroom]
  obtain hflush | ⟨fault, -, hflush⟩ := hputs.into_flush sink
  · rw [hflush, hputs.into_eq] at h
    by_cases hp : sink.Holds ps.flatten
    · rw [if_pos hp] at h
      dsimp only at h
      rw [h]
      exact Or.inr rfl
    · rw [if_neg hp] at h
      exact Or.inl ⟨_, (Except.error.inj h).symm⟩
  · rw [hflush] at h
    exact Or.inl ⟨_, (Except.error.inj h).symm⟩

end Instance

/-! ## Sinks that fail -/

/-- **A sink that fails only cuts the output.** A message on a sink of capacity `cap` leaves the
first bytes of what it leaves on a sink that is never full, with the same answer if that fits and a
failure of the sink if not. The position of an encoder, after any calls, is the size of the writes
that are complete; it is no more than the sink holds, and just that as long as the sink has not
failed. -/
theorem sink_only_cuts :
    (∀ {n : Nat} (G : Catalog n) (m : Instance n) (cap : Nat) (fault? : Option Fault),
      let R := ((m.encode G).into .memory).1
      let W := ((m.encode G).into .memory).2.held.toList
      let sink : Sink := ⟨#[], some cap, fault?, none⟩
      ((m.encode G).into sink).2.held.toList = W.take (min cap W.length) ∧
        ((m.encode G).into sink).1 = if W.length ≤ cap then R else .error (.io sink.fullFault)) ∧
    ∀ (cap? : Option Nat) (fault? flushFault? : Option Fault) (cs : List Call),
      let sink : Sink := ⟨#[], cap?, fault?, flushFault?⟩
      let (answers, e) := (Encoder.new sink).perform cs
      let complete := (sink.offerEach (cs.map Call.pieces)).1
      e.position = (complete.map List.length).sum ∧ e.position ≤ e.sink.held.size ∧
        ((∃ fault, .error (.io fault) ∈ answers) ∨ e.position = e.sink.held.size) := by
  constructor
  · intro n G m cap fault? R W sink
    have hroom : sink.room W.length = min cap W.length := Nat.min_comm ..
    rw [m.encode_into_eq rfl]
    refine ⟨?_, ?_⟩
    · change (sink.fill W).held.toList = _
      simp [Sink.fill, Sink.add, hroom, sink]
    · have hholds : sink.Holds W ↔ W.length ≤ cap := by
        rw [Sink.Holds, hroom]
        omega
      simp only [← hholds]
      rfl
  · intro cap? fault? flushFault? cs sink
    obtain ⟨-, hposition⟩ := (Encoder.new sink).perform_eq cs
    obtain ⟨hle, hheld⟩ := (Encoder.new sink).perform_held cs
    rw [List.length_flatten, Encoder.new, Nat.zero_add] at hposition
    simp only [Encoder.new, sink, List.size_toArray, List.length_nil, Nat.zero_add] at hle hheld
    exact ⟨hposition, hle, hheld⟩

end MessageWire
