import MessageWire.Proofs.Wire.Closed
import MessageWire.Proofs.Wire.Read

/-!
# Where an action ends

An action on bytes in memory finds out by itself where its input ends. It looks at no byte behind
that place, whether it succeeds there or fails, and if the input is cut short anywhere in front of
it, the action says so.

* `Lacks`: a report of missing bytes that names the place where the input ends;
* `Settles`: an outcome that is reached behind some bytes, and not in front of it, `Settles.bind`;
* `Delimited`: every outcome settles but for missing bytes, `Delimited.bind`, `Delimited.level`;
* `Delimited.run`: two runs, on more bytes and on fewer;
* **`closed_delimited`**: all readers are delimited.
-/

namespace MessageWire

open EStateM (Result)

variable {α β : Type}

/-- What an action has come to, with a decoder in its state. -/
def outcome (o : Except WireError α) (d : Decoder) : Result WireError Decoder α :=
  match o with
  | .ok a => .ok a d
  | .error e => .error e d

/-- **Bytes are missing:** the action uses up the input and reports a stretch of bytes that starts
no later than the input ends and goes on behind it, but not beyond `stop`. -/
def Lacks (act : Read α) (d : Decoder) (bs : Bytes) (stop : Nat) : Prop :=
  ∃ offset needed d', act (d.facing bs) = .error (.truncated offset needed) d' ∧
    d'.source = .memory [] ∧ offset ≤ d.position + bs.length ∧
      d.position + bs.length < offset + needed ∧ offset + needed ≤ d.position + stop

/-- **An outcome that is reached behind `used`**, whatever follows, and not in front of it. -/
structure Settles (act : Read α) (d : Decoder) (used : Bytes) (o : Except WireError α) : Prop where
  whole : ∀ rest, act (d.facing (used ++ rest)) = outcome o ((d.moved used.length).facing rest)
  cut : ∀ k < used.length, Lacks act d (used.take k) used.length

namespace Lacks

variable {act act' : Read α} {next : α → Read β} {d : Decoder} {bs : Bytes} {stop : Nat}

theorem congr (h : Lacks act d bs stop) (he : act' (d.facing bs) = act (d.facing bs)) :
    Lacks act' d bs stop := by
  obtain ⟨offset, needed, d', ha, hd⟩ := h
  exact ⟨offset, needed, d', he.trans ha, hd⟩

theorem mono (h : Lacks act d bs stop) {stop' : Nat} (hs : stop ≤ stop') :
    Lacks act d bs stop' := by
  obtain ⟨offset, needed, d', ha, hd, h₁, h₂, h₃⟩ := h
  exact ⟨offset, needed, d', ha, hd, h₁, h₂, by omega⟩

theorem bind (h : Lacks act d bs stop) : Lacks (act >>= next) d bs stop := by
  obtain ⟨offset, needed, d', ha, hd⟩ := h
  exact ⟨offset, needed, d', bind_error ha, hd⟩

/-- Bytes are missing behind those that an action has used. -/
theorem bind_of_settles {a : α} {us : Bytes} (ha : Settles act d us (.ok a))
    (h : Lacks (next a) (d.moved us.length) bs stop) :
    Lacks (act >>= next) d (us ++ bs) (us.length + stop) := by
  obtain ⟨offset, needed, d', hn, hd, h₁, h₂, h₃⟩ := h
  rw [Decoder.position_moved] at h₁ h₂ h₃
  refine ⟨offset, needed, d', (bind_ok (ha.whole bs)).trans hn, hd, ?_, ?_, ?_⟩
  · rw [List.length_append]
    omega
  · rw [List.length_append]
    omega
  · omega

end Lacks

namespace Settles

variable {act : Read α} {next : α → Read β} {d : Decoder} {us vs : Bytes}

/-- An outcome in front of all bytes. -/
theorem nil {o : Except WireError α} (h : ∀ rest, act (d.facing rest) = outcome o (d.facing rest)) :
    Settles act d [] o := ⟨h, fun _ hk => absurd hk (Nat.not_lt_zero _)⟩

theorem bind_error {e : WireError} (h : Settles act d us (.error e)) :
    Settles (act >>= next) d us (.error e) :=
  ⟨fun rest => MessageWire.bind_error (h.whole rest), fun k hk => (h.cut k hk).bind⟩

/-- **Two outcomes in sequence.** -/
theorem bind {a : α} {o : Except WireError β} (h : Settles act d us (.ok a))
    (hn : Settles (next a) (d.moved us.length) vs o) :
    Settles (act >>= next) d (us ++ vs) o := by
  refine ⟨fun rest => ?_, fun k hk => ?_⟩
  · rw [List.append_assoc, bind_ok (h.whole (vs ++ rest)), hn.whole rest, Decoder.moved_moved,
      List.length_append]
  · rw [List.length_append] at hk ⊢
    -- the input ends within the first action, or behind it and within the second
    by_cases hu : k < us.length
    · rw [List.take_append_of_le_length (by omega)]
      exact ((h.cut k hu).mono (by omega)).bind
    · obtain ⟨j, rfl⟩ : ∃ j, k = us.length + j := ⟨k - us.length, by omega⟩
      rw [List.take_length_add_append]
      exact (hn.cut j (by omega)).bind_of_settles h

end Settles

/-! ## Delimited actions -/

/-- **An action that knows where its input ends:** bytes are missing, or an outcome is reached
behind some of those that there are. -/
def Delimited (act : Read α) : Prop :=
  ∀ d bs, (∃ stop, Lacks act d bs stop) ∨ ∃ used rest o, bs = used ++ rest ∧ Settles act d used o

namespace Delimited

variable {act : Read α} {next : α → Read β}

theorem pure (a : α) : Delimited (Pure.pure a : Read α) :=
  fun _ bs => Or.inr ⟨[], bs, .ok a, rfl, .nil fun _ => rfl⟩

theorem throw (e : WireError) : Delimited (MonadExcept.throw e : Read α) :=
  fun _ bs => Or.inr ⟨[], bs, .error e, rfl, .nil fun _ => rfl⟩

/-- **Two actions in sequence.** -/
theorem bind (h : Delimited act) (hn : ∀ a, Delimited (next a)) : Delimited (act >>= next) := by
  intro d bs
  obtain ⟨stop, hl⟩ | ⟨us, rest, o, rfl, hs⟩ := h d bs
  · exact Or.inl ⟨stop, hl.bind⟩
  · cases o with
    | error e => exact Or.inr ⟨us, rest, .error e, rfl, hs.bind_error⟩
    | ok a =>
      obtain ⟨stop, hl⟩ | ⟨vs, rest, o, rfl, ht⟩ := hn a (d.moved us.length) rest
      · exact Or.inl ⟨us.length + stop, hl.bind_of_settles hs⟩
      · exact Or.inr ⟨us ++ vs, rest, o, (List.append_assoc ..).symm, hs.bind ht⟩

/-- An action that looks at the decoder, but not at its source, to choose what to do. -/
theorem choose
    (h : ∀ d : Decoder, ∃ act', Delimited act' ∧ ∀ bs, act (d.facing bs) = act' (d.facing bs)) :
    Delimited act := by
  intro d bs
  obtain ⟨act', ha, he⟩ := h d
  obtain ⟨stop, hl⟩ | ⟨used, rest, o, rfl, hs⟩ := ha d bs
  · exact Or.inl ⟨stop, hl.congr (he bs)⟩
  · exact Or.inr ⟨used, rest, o, rfl, fun rest => (he _).trans (hs.whole rest),
      fun k hk => (hs.cut k hk).congr (he _)⟩

theorem position : Delimited Read.position :=
  choose fun d => ⟨Pure.pure d.position, pure _, fun _ => rfl⟩

theorem levels : Delimited Read.levels := choose fun d => ⟨Pure.pure d.levels, pure _, fun _ => rfl⟩

theorem limits {next : Decoder → Read α} (h : ∀ d, Delimited (next d))
    (hs : ∀ (d : Decoder) (source : Source), next { d with source } = next d) :
    Delimited (get >>= next) :=
  choose fun d => ⟨next d, h d, fun bs => congrFun (hs d (.memory bs)) (d.facing bs)⟩

/-- **An action on a level of its own.** The level is closed also where bytes are missing. -/
theorem level (h : Delimited act) : Delimited (Read.level act) := by
  intro d bs
  by_cases hr : 0 < d.levels
  · have hlacks {bs : Bytes} {stop : Nat} (hl : Lacks act d.deeper bs stop) :
        Lacks (Read.level act) d bs stop := by
      obtain ⟨offset, needed, d', ha, hd⟩ := hl
      refine ⟨offset, needed, d'.shallower, ?_, hd⟩
      rw [Read.level_facing, if_pos hr, ha]
    obtain ⟨stop, hl⟩ | ⟨used, rest, o, rfl, hs⟩ := h d.deeper bs
    · exact Or.inl ⟨stop, hlacks hl⟩
    · refine Or.inr ⟨used, rest, o, rfl, fun rest => ?_, fun k hk => hlacks (hs.cut k hk)⟩
      rw [Read.level_facing, if_pos hr, hs.whole rest]
      cases o <;> rfl
  · refine Or.inr ⟨[], bs, .error (.tooDeep d.limits.maxDepth), rfl, .nil fun rest => ?_⟩
    rw [Read.level_facing, if_neg hr]
    rfl

/-- **Two runs.** Behind an outcome nothing is looked at, and without all that leads to it bytes
are missing. -/
theorem run (h : Delimited act) {L : Limits} {bs : Bytes} {o : Except WireError α} {left : Source}
    (hr : act.run (.memory bs) L = (o, left)) :
    (∃ offset needed, o = .error (.truncated offset needed)) ∨
      ∃ used rest, bs = used ++ rest ∧ left = .memory rest ∧
        (∀ more, act.run (.memory (used ++ more)) L = (o, .memory more)) ∧
        ∀ k < used.length, ∃ offset needed,
          act.run (.memory (used.take k)) L = (.error (.truncated offset needed), .memory []) ∧
            offset ≤ k ∧ k < offset + needed ∧ offset + needed ≤ used.length := by
  obtain ⟨stop, offset, needed, d', ha, -⟩ | ⟨used, rest, o', rfl, hs⟩ :=
    h (.new (.memory []) L) bs
  · rw [Read.run_of_error ha] at hr
    cases hr
    exact Or.inl ⟨offset, needed, rfl⟩
  · have hwhole (more : Bytes) : act.run (.memory (used ++ more)) L = (o', .memory more) := by
      cases o' with
      | ok a => exact Read.run_of_ok (hs.whole more)
      | error e => exact Read.run_of_error (hs.whole more)
    rw [hwhole] at hr
    cases hr
    refine Or.inr ⟨used, rest, rfl, rfl, hwhole, fun k hk => ?_⟩
    obtain ⟨offset, needed, d', ha, hd, h₁, h₂, h₃⟩ := hs.cut k hk
    have hp : (Decoder.new (.memory []) L).position = 0 := rfl
    rw [hp, Nat.zero_add, List.length_take_of_le (Nat.le_of_lt hk)] at h₁ h₂
    rw [hp, Nat.zero_add] at h₃
    refine ⟨offset, needed, ?_, h₁, h₂, h₃⟩
    rw [Read.run_of_error ha, hd]

end Delimited

/-! ## Bytes -/

/-- An action that takes `k` bytes if it can. -/
theorem delimited_of_take {act : Read Bytes} (k : Nat)
    (htake : ∀ d bs, k ≤ bs.length →
      act (Decoder.facing d bs) = .ok (bs.take k) ((d.moved k).facing (bs.drop k)))
    (hlacks : ∀ d bs, bs.length < k → Lacks act d bs k) : Delimited act := by
  intro d bs
  by_cases hk : k ≤ bs.length
  · have hl : (bs.take k).length = k := List.length_take_of_le hk
    refine Or.inr ⟨bs.take k, bs.drop k, .ok (bs.take k), (List.take_append_drop k bs).symm, ?_, ?_⟩
    · intro rest
      rw [htake d _ (by rw [List.length_append]; omega), List.take_left' hl, List.drop_left' hl, hl]
      rfl
    · intro j hj
      rw [hl] at hj ⊢
      exact hlacks d _ (by rw [List.length_take]; omega)
  · exact Or.inl ⟨k, hlacks d bs (Nat.lt_of_not_le hk)⟩

theorem delimited_fixed (k : Nat) : Delimited (Read.fixed k) := by
  refine delimited_of_take k (fun d bs hk => ?_) fun d bs hk => ?_
  · rw [Read.fixed_facing, if_pos hk]
  · refine ⟨d.position, k, d.facing [], ?_, rfl, by omega, by omega, by omega⟩
    rw [Read.fixed_facing, if_neg (by omega)]

theorem delimited_content (k : Nat) : Delimited (Read.content k) := by
  refine delimited_of_take k (fun d bs hk => ?_) fun d bs hk => ?_
  · rw [Read.content_facing, if_pos hk]
  · refine ⟨d.position + bs.length, k - bs.length, (d.moved bs.length).facing [], ?_, rfl, by omega,
      by omega, by omega⟩
    rw [Read.content_facing, if_neg (by omega)]

/-- **Every reader is delimited.** -/
theorem closed_delimited : Read.Closed fun _ act => Delimited act where
  pure := Delimited.pure
  throw := fun _ => Delimited.throw _
  bind := Delimited.bind
  limits := Delimited.limits
  position := Delimited.position
  levels := Delimited.levels
  level := Delimited.level
  fixed := delimited_fixed
  content := delimited_content

end MessageWire
