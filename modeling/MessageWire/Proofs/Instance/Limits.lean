import MessageWire.Proofs.Instance.Decode
import MessageWire.Proofs.Wire.Limits

/-!
# What the limits of a decoder do

A decoder holds every length and every level against its limits as it comes to them. All in all it
takes the messages that respect the limits, and no others; whatever else is wrong with the input is
found without limits too.

* `relaxes_kind`, `relaxes_fields`, **`relaxes_message`**: the decoder, by recursion on kinds, on
  fields and on the levels that are left;
* `Instance.Respects.mono`: a message that respects limits respects looser ones;
* **`Instance.run_decode_limits`**: a decoder with limits and one without.
-/

namespace MessageWire

variable {n : Nat} {G : Catalog n}

section Kinds

variable {S : Schema n} {nested nested' : Fin n → Read (Value n)}

theorem relaxes_counted (done : List (Value n × Nat)) (c : String) :
    Relaxes (Read.counted S done c) (Read.counted S done c) := by
  unfold Read.counted
  cases Read.count? S done c with
  | none => exact .throw _
  | some p => exact relaxes_countAt p.1 p.2

/-- **A value of a kind**, given the nested messages. -/
theorem relaxes_kind (hn : ∀ t, Relaxes (nested t) (nested' t)) (done : List (Value n × Nat))
    (kind : Kind n) : Relaxes (Read.kind nested S done kind) (Read.kind nested' S done kind) := by
  induction kind with
  | primitive p => exact (relaxes_scalar p).map _
  | message t => exact hn t
  | array element x ih =>
    cases x with
    | fixed size => exact (ih.times _).map _
    | counted c => exact (relaxes_counted done c).bind fun k => (ih.times k).map _

theorem relaxes_fields (hn : ∀ t, Relaxes (nested t) (nested' t)) (done : List (Value n × Nat))
    (fs : List (Field n)) :
    Relaxes (Read.fields nested S done fs) (Read.fields nested' S done fs) := by
  induction fs generalizing done with
  | nil => exact .pure done
  | cons f fs ih =>
    exact .position fun offset => (relaxes_kind hn done f.kind).bind fun v => ih _

end Kinds

/-- **The values of a message**, with fewer levels left and with more. -/
theorem relaxes_message {room room' : Nat} (h : room ≤ room') (s : Fin n) :
    Relaxes (Read.message G room s) (Read.message G room' s) := by
  induction room generalizing room' s with
  | zero =>
    -- no level is left under the tighter limits
    intro d L hL
    exact Or.inl trivial
  | succ room ih =>
    obtain ⟨room', rfl⟩ : ∃ r, room' = r + 1 := ⟨room' - 1, by omega⟩
    have hn (t : Fin n) :
        Relaxes (Read.level (return Value.message t (← Read.message G room t)))
          (Read.level (return Value.message t (← Read.message G room' t))) :=
      ((ih (by omega) t).map (Value.message t)).level
    exact (relaxes_fields hn [] (G s).fields).map _

/-! ## Within the limits -/

theorem Node.Within.mono {L L' : Limits} (hL : L.Le L') {a : Node n} (h : a.Within L) :
    a.Within L' := by
  obtain ⟨m, field, kind, v⟩ := a
  cases v with
  | scalar v =>
    cases kind with
    | primitive p =>
      cases v with
      | text s => exact Nat.le_trans h hL.text
      | _ => trivial
    | _ => trivial
  | array items =>
    cases kind with
    | array element x =>
      cases x with
      | fixed size => trivial
      | counted c => exact Nat.le_trans h hL.array
    | _ => trivial
  | message u values => cases kind <;> trivial

namespace Instance

/-- A message that respects limits respects looser ones. -/
theorem Respects.mono {L L' : Limits} (hL : L.Le L') {m : Instance n} (h : m.Respects G L) :
    m.Respects G L' := ⟨Nat.le_trans h.1 hL.depth, fun a ha => (h.2 a ha).mono hL⟩

theorem relaxes_decode (s : Fin n) : Relaxes (decode G s) (decode G s) :=
  (relaxes_expect _ _).bind fun _ =>
    .levels fun _ _ hr => ((relaxes_message hr s).map (Instance.mk s)).level

/-- **A decoder with limits and one without:** under limits come out the messages that come out
without, from the same bytes, and respect the limits. What comes out without limits and does not
respect them is refused for a length or for its depth, and every other failure is that of a decoder
without limits. -/
theorem run_decode_limits (G : Catalog n) (s : Fin n) (limits : Limits) (bs : Bytes) :
    (∀ m left, (decode G s).run (.memory bs) limits = (.ok m, left) ↔
      (decode G s).run (.memory bs) .unlimited = (.ok m, left) ∧ m.Respects G limits) ∧
    (∀ m left, (decode G s).run (.memory bs) .unlimited = (.ok m, left) → ¬ m.Respects G limits →
      ∃ e left', (decode G s).run (.memory bs) limits = (.error e, left') ∧ e.OfLimits) ∧
    ∀ e left, (decode G s).run (.memory bs) limits = (.error e, left) → ¬ e.OfLimits →
      (decode G s).run (.memory bs) .unlimited = (.error e, left) := by
  have hL := limits.le_unlimited
  have hok (m : Instance n) (left : Source) :
      (decode G s).run (.memory bs) limits = (.ok m, left) ↔
        (decode G s).run (.memory bs) .unlimited = (.ok m, left) ∧ m.Respects G limits := by
    rw [run_decode_eq_ok_iff, run_decode_eq_ok_iff]
    constructor
    · rintro ⟨⟨hs, hw, hb, hc, hr⟩, hu⟩
      exact ⟨⟨⟨hs, hw, hb, hc, hr.mono hL⟩, hu⟩, hr⟩
    · rintro ⟨⟨⟨hs, hw, hb, hc, -⟩, hu⟩, hr⟩
      exact ⟨⟨hs, hw, hb, hc, hr⟩, hu⟩
  have herror (e : WireError) (left : Source)
      (h : (decode G s).run (.memory bs) limits = (.error e, left)) (he : ¬ e.OfLimits) :
      (decode G s).run (.memory bs) .unlimited = (.error e, left) := by
    obtain ⟨e', h', he'⟩ | hu := (relaxes_decode s).run hL h
    · cases h'
      exact absurd he' he
    · exact hu
  refine ⟨hok, fun m left h hr => ?_, herror⟩
  cases hrun : (decode G s).run (.memory bs) limits with
  | mk o left' =>
    cases o with
    | ok m' =>
      -- it would be the message that comes out without limits
      have hm := (hok m' left').mp hrun
      rw [h] at hm
      cases hm.1
      exact absurd hm.2 hr
    | error e =>
      refine ⟨e, left', rfl, ?_⟩
      by_contra he
      rw [herror e left' hrun he] at h
      cases h

/-- A text of one byte fits a limit of one and is too long for a limit of none; an input that ends
in front of the fingerprint is too short under all limits. -/
theorem run_decode_lamp_limits :
    (decode lamps 0).run (.memory (wire (lamp.cells lamps))) ⟨1, 0, 1⟩ = (.ok lamp, .memory []) ∧
    (∃ e left, (decode lamps 0).run (.memory (wire (lamp.cells lamps))) ⟨0, 0, 1⟩ =
      (.error e, left) ∧ e.OfLimits) ∧
    (decode lamps 0).run (.memory []) .unlimited = (.error (.truncated 0 8), .memory []) := by
  have hlamp : (decode lamps 0).run (.memory (wire (lamp.cells lamps))) .unlimited =
      (.ok lamp, .memory []) :=
    run_decode_eq_ok_iff.mpr ⟨⟨rfl, by decide, by decide, by decide, by decide⟩, _, [],
      (List.append_nil _).symm, spells_wire _, rfl⟩
  have hnil : (decode lamps 0).run (.memory []) ⟨0, 0, 1⟩ =
      (.error (.truncated 0 8), .memory []) :=
    Read.run_of_error (bind_error (bind_error (bind_error (Read.fixed_facing _ 8 []))))
  exact ⟨((run_decode_limits lamps 0 ⟨1, 0, 1⟩ _).1 lamp _).mpr ⟨hlamp, by decide⟩,
    (run_decode_limits lamps 0 ⟨0, 0, 1⟩ _).2.1 lamp _ hlamp (by decide),
    (run_decode_limits lamps 0 ⟨0, 0, 1⟩ _).2.2 _ _ hnil not_false⟩

end Instance

end MessageWire
