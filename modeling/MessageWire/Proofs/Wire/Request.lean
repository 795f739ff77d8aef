import MessageWire.Proofs.Wire.Delimited

/-!
# Reads in a row

A decoder on bytes in memory is asked for one thing after another, and is asked again after it has
failed. Its offset and the bytes that are left make up the input until bytes are missing for the
first time; from then on nothing is left and nothing moves.

* `WireError.Missing`: the error that bytes are missing;
* `Decoder.Behind`, `Decoder.Drained`: where a decoder stands after a read, `Behind.trans`;
* `Moves`: a reader moves the offset by what it reads, **`closed_moves`**: all readers;
* `Request`, `Item`: what a decoder is asked for and what it gives, **`reads_request`**;
* `Starves`, `Request.starves_read`: a request at the end of the input;
* `Decoder.call`, `Decoder.perform`: requests one after the other, failed ones included,
  `Decoder.call_spec`, **`Decoder.perform_spec`**;
* **`Decoder.reads_in_a_row`**.
-/

namespace MessageWire

variable {α β : Type}

/-- The error that bytes are missing. -/
def WireError.Missing : WireError → Prop
  | truncated .. => True
  | _ => False

theorem WireError.not_missing_of_ne {e : WireError}
    (h : ∀ offset needed, e ≠ .truncated offset needed) : ¬ e.Missing := by
  intro hm
  cases e with
  | truncated offset needed => exact h offset needed rfl
  | _ => exact hm

/-- The answer is that bytes are missing. -/
def Missing (o : Except WireError α) : Prop := ∃ e, o = .error e ∧ e.Missing

@[simp] theorem missing_error_iff {e : WireError} :
    Missing (.error e : Except WireError α) ↔ e.Missing := by simp [Missing]

@[simp] theorem not_missing_ok (a : α) : ¬ Missing (.ok a) := by simp [Missing]

/-! ## Where a read ends -/

namespace Decoder

/-- The decoder has read some of the bytes in front of it, and its offset has moved by as many. -/
def Behind (d : Decoder) (bs : Bytes) (d' : Decoder) : Prop :=
  ∃ used rest, bs = used ++ rest ∧ d' = (d.moved used.length).facing rest

/-- The decoder has used up the bytes in front of it, and its offset has moved by no more than there
were. -/
def Drained (d : Decoder) (bs : Bytes) (d' : Decoder) : Prop :=
  ∃ k ≤ bs.length, d' = (d.moved k).facing []

variable {d d' : Decoder} {us bs : Bytes}

theorem Behind.refl (d : Decoder) (bs : Bytes) : d.Behind bs (d.facing bs) := ⟨[], bs, rfl, rfl⟩

theorem Behind.trans (h : (d.moved us.length).Behind bs d') : d.Behind (us ++ bs) d' := by
  obtain ⟨vs, rest, rfl, rfl⟩ := h
  refine ⟨us ++ vs, rest, (List.append_assoc ..).symm, ?_⟩
  rw [moved_moved, List.length_append]

theorem Drained.trans (h : (d.moved us.length).Drained bs d') : d.Drained (us ++ bs) d' := by
  obtain ⟨k, hk, rfl⟩ := h
  refine ⟨us.length + k, ?_, by rw [moved_moved]⟩
  rw [List.length_append]
  omega

/-- **Where an answer leaves the decoder:** behind what it has read, or at the end of the input if
bytes are missing. -/
def Reaches (d : Decoder) (bs : Bytes) (o : Except WireError α) (d' : Decoder) : Prop :=
  (¬ Missing o ∧ d.Behind bs d') ∨ (Missing o ∧ d.Drained bs d')

theorem Reaches.trans {o : Except WireError α} (h : (d.moved us.length).Reaches bs o d') :
    d.Reaches (us ++ bs) o d' := h.imp (And.imp_right .trans) (And.imp_right .trans)

theorem Reaches.position_le {o : Except WireError α} (h : d.Reaches bs o d') :
    d.position ≤ d'.position := by
  obtain ⟨-, used, rest, -, rfl⟩ | ⟨-, k, -, rfl⟩ := h <;> exact Nat.le_add_right ..

end Decoder

/-- **A reader moves the offset by what it reads.** If bytes are missing it uses up all that there
are. -/
def Moves (act : Read α) : Prop :=
  ∀ d bs, ∃ o d', act (Decoder.facing d bs) = outcome o d' ∧ d.Reaches bs o d'

namespace Moves

variable {act : Read α} {next : α → Read β}

theorem pure (a : α) : Moves (Pure.pure a : Read α) :=
  fun d bs => ⟨.ok a, _, rfl, Or.inl ⟨not_missing_ok a, .refl d bs⟩⟩

theorem throw {e : WireError} (he : ∀ offset needed, e ≠ .truncated offset needed) :
    Moves (MonadExcept.throw e : Read α) := fun d bs =>
  ⟨.error e, _, rfl,
    Or.inl ⟨missing_error_iff.not.mpr (WireError.not_missing_of_ne he), .refl d bs⟩⟩

/-- **Two readers in sequence.** -/
theorem bind (h : Moves act) (hn : ∀ a, Moves (next a)) : Moves (act >>= next) := by
  intro d bs
  obtain ⟨o, d₁, ha, hr⟩ := h d bs
  cases o with
  | error e =>
    refine ⟨.error e, d₁, bind_error ha, ?_⟩
    rwa [Decoder.Reaches, missing_error_iff] at hr ⊢
  | ok a =>
    obtain ⟨-, us, rest, rfl, rfl⟩ := hr.resolve_right fun hm => not_missing_ok a hm.1
    obtain ⟨o, d₂, hb, hr⟩ := hn a (d.moved us.length) rest
    exact ⟨o, d₂, (bind_ok ha).trans hb, hr.trans⟩

/-- A reader that looks at the decoder, but not at its source, to choose what to do. -/
theorem choose
    (h : ∀ d : Decoder, ∃ act', Moves act' ∧ ∀ bs, act (d.facing bs) = act' (d.facing bs)) :
    Moves act := by
  intro d bs
  obtain ⟨act', ha, he⟩ := h d
  obtain ⟨o, d', ho, hr⟩ := ha d bs
  exact ⟨o, d', (he bs).trans ho, hr⟩

/-- **A reader on a level of its own.** -/
theorem level (h : Moves act) : Moves (Read.level act) := by
  intro d bs
  by_cases hr : 0 < d.levels
  · obtain ⟨o, d₁, ha, hd⟩ := h d.deeper bs
    refine ⟨o, d₁.shallower, ?_, hd.imp (And.imp_right ?_) (And.imp_right ?_)⟩
    · rw [Read.level_facing, if_pos hr, ha]
      cases o <;> rfl
    · rintro ⟨used, rest, rfl, rfl⟩
      exact ⟨used, rest, rfl, rfl⟩
    · rintro ⟨k, hk, rfl⟩
      exact ⟨k, hk, rfl⟩
  · refine ⟨.error (.tooDeep d.limits.maxDepth), d.facing bs, ?_, Or.inl ⟨?_, .refl d bs⟩⟩
    · rw [Read.level_facing, if_neg hr]
      rfl
    · rw [missing_error_iff]
      exact not_false

/-- A reader that takes `k` bytes, or uses up what there is. -/
theorem of_take {act : Read Bytes} (k : Nat)
    (h : ∀ d bs, k ≤ bs.length →
      act (Decoder.facing d bs) = .ok (bs.take k) ((d.moved k).facing (bs.drop k)))
    (hlacks : ∀ d bs, bs.length < k → ∃ e d', act (Decoder.facing d bs) = .error e d' ∧
      e.Missing ∧ d.Drained bs d') : Moves act := by
  intro d bs
  by_cases hk : k ≤ bs.length
  · refine ⟨.ok (bs.take k), _, h d bs hk, Or.inl ⟨not_missing_ok _, bs.take k, bs.drop k, ?_, ?_⟩⟩
    · exact (List.take_append_drop k bs).symm
    · rw [List.length_take_of_le hk]
  · obtain ⟨e, d', he, hm, hd⟩ := hlacks d bs (Nat.lt_of_not_le hk)
    exact ⟨.error e, d', he, Or.inr ⟨missing_error_iff.mpr hm, hd⟩⟩

theorem fixed (k : Nat) : Moves (Read.fixed k) := by
  refine of_take k (fun d bs hk => ?_) fun d bs hk => ?_
  · rw [Read.fixed_facing, if_pos hk]
  · refine ⟨.truncated d.position k, d.facing [], ?_, trivial, 0, Nat.zero_le _, rfl⟩
    rw [Read.fixed_facing, if_neg (by omega)]

theorem content (k : Nat) : Moves (Read.content k) := by
  refine of_take k (fun d bs hk => ?_) fun d bs hk => ?_
  · rw [Read.content_facing, if_pos hk]
  · refine ⟨.truncated (d.position + bs.length) (k - bs.length), (d.moved bs.length).facing [], ?_,
      trivial, bs.length, Nat.le_refl _, rfl⟩
    rw [Read.content_facing, if_neg (by omega)]

end Moves

/-- **Every reader** moves the offset by what it reads. -/
theorem closed_moves : Read.Closed fun _ act => Moves act where
  pure := Moves.pure
  throw := Moves.throw
  bind := Moves.bind
  limits h hs := .choose fun d => ⟨_, h d, fun bs => congrFun (hs d (.memory bs)) (d.facing bs)⟩
  position := .choose fun d => ⟨Pure.pure d.position, .pure _, fun _ => rfl⟩
  levels := .choose fun d => ⟨Pure.pure d.levels, .pure _, fun _ => rfl⟩
  level := Moves.level
  fixed := Moves.fixed
  content := Moves.content

/-! ## Requests -/

/-- What a decoder can be asked for. -/
inductive Request
  | scalar (p : Primitive)
  | fingerprint
  deriving DecidableEq, Repr

/-- What a decoder gives when it is asked. -/
inductive Item
  | scalar (v : Scalar)
  | fingerprint (fp : Fingerprint)
  deriving DecidableEq

/-- The reader of what is asked for. -/
def Request.read : Request → Read Item
  | scalar p => return .scalar (← Read.scalar p)
  | fingerprint => return .fingerprint (← Read.fingerprint)

namespace Item

/-- The request that an item answers. -/
def request : Item → Request
  | scalar v => .scalar v.kind
  | fingerprint _ => .fingerprint

/-- The cells of an item. -/
def cells : Item → List Cell
  | scalar v => v.cells
  | fingerprint fp => Cell.contents fp.toBytes

/-- The item has a wire form. -/
def Writable : Item → Prop
  | scalar v => v.Writable
  | fingerprint _ => True

/-- The item is within the limits. -/
def Within (L : Limits) : Item → Prop
  | scalar v => v.Within L
  | fingerprint _ => True

/-- An item with a wire form is within the greatest limits. -/
theorem Writable.within_unlimited {a : Item} (h : a.Writable) : a.Within .unlimited := by
  cases a with
  | scalar v => exact Scalar.Writable.within_unlimited h
  | fingerprint fp => trivial

instance : DecidablePred Writable
  | scalar v => inferInstanceAs (Decidable v.Writable)
  | fingerprint _ => inferInstanceAs (Decidable True)

instance (L : Limits) : DecidablePred (Within L)
  | scalar v => inferInstanceAs (Decidable (v.Within L))
  | fingerprint _ => inferInstanceAs (Decidable True)

end Item

/-- **A request** is answered by the items of its kind that could have been written and that the
limits allow. -/
theorem reads_request (r : Request) :
    Reads r.read Item.cells fun L _ a => a.request = r ∧ a.Writable ∧ a.Within L := by
  cases r with
  | scalar p =>
    refine (reads_scalar p).map Item.scalar (fun _ _ _ _ => rfl) fun L _ a => ?_
    cases a <;> simp [Item.request, Item.Writable, Item.Within]
  | fingerprint =>
    refine reads_fingerprint.map Item.fingerprint (fun _ _ _ _ => rfl) fun L _ a => ?_
    cases a <;> simp [Item.request, Item.Writable, Item.Within]

theorem Request.moves_read (r : Request) : Moves r.read := by
  cases r with
  | scalar p => exact closed_moves.map (closed_moves.scalar p) _
  | fingerprint => exact closed_moves.map (closed_moves.map (closed_moves.fixed _) _) _

/-! ## At the end of the input -/

/-- At the end of the input bytes are missing, and nothing moves. -/
def Starves (act : Read α) : Prop :=
  ∀ d, ∃ needed, act (Decoder.facing d []) = .error (.truncated d.position needed) (d.facing [])

theorem Starves.bind {act : Read α} (h : Starves act) (next : α → Read β) :
    Starves (act >>= next) := fun d =>
  let ⟨needed, he⟩ := h d
  ⟨needed, bind_error he⟩

theorem Starves.position {next : Nat → Read α} (h : ∀ p, Starves (next p)) :
    Starves (Read.position >>= next) := fun d => h d.position d

theorem starves_fixed {k : Nat} (hk : 0 < k) : Starves (Read.fixed k) := fun d =>
  ⟨k, (Read.fixed_facing d k []).trans (if_neg (Nat.not_le.mpr hk))⟩

theorem starves_word {w : Nat} (hw : 0 < w) : Starves (Read.word w) := (starves_fixed hw).bind _

/-- **Every request** needs at least a byte. -/
theorem Request.starves_read (r : Request) : Starves r.read := by
  have word (w : Nat) : Starves (Read.word (w + 1)) := starves_word (Nat.succ_pos w)
  have byte : Starves Read.byte := (word 0).bind _
  cases r with
  | fingerprint => exact ((starves_fixed (Nat.succ_pos 7)).bind _).bind _
  | scalar p =>
    refine Starves.bind ?_ _
    cases p with
    | text => exact .bind (.position fun _ => ((word 3).bind _).bind _) _
    | boolean => exact (byte.bind _).bind _
    | byte => exact byte.bind _
    | int8 => exact ((word 0).bind _).bind _
    | int16 => exact ((word 1).bind _).bind _
    | int32 | float32 => exact ((word 3).bind _).bind _
    | int64 | float64 => exact ((word 7).bind _).bind _

/-! ## Requests in a row -/

namespace Decoder

/-- The answer to a request, and the decoder after it. -/
def call (d : Decoder) (r : Request) : Except WireError Item × Decoder :=
  match r.read d with
  | .ok a d => (.ok a, d)
  | .error e d => (.error e, d)

/-- Requests one after the other, whatever the answers. -/
def perform (d : Decoder) : List Request → List (Except WireError Item) × Decoder
  | [] => ([], d)
  | r :: rs => ((d.call r).1 :: ((d.call r).2.perform rs).1, ((d.call r).2.perform rs).2)

theorem call_eq_iff {d d' : Decoder} {r : Request} {o : Except WireError Item} :
    d.call r = (o, d') ↔ r.read d = outcome o d' := by
  unfold call
  cases r.read d <;> cases o <;> simp [outcome]

/-- **One request** moves the offset by what it reads. -/
theorem call_spec (d : Decoder) (bs : Bytes) (r : Request) :
    d.Reaches bs ((d.facing bs).call r).1 ((d.facing bs).call r).2 := by
  obtain ⟨o, d', h, hr⟩ := r.moves_read d bs
  rwa [call_eq_iff.mpr h]

/-- A request at the end of the input. -/
theorem call_facing_nil (d : Decoder) (r : Request) :
    ∃ needed, (d.facing []).call r = (.error (.truncated d.position needed), d.facing []) := by
  obtain ⟨needed, h⟩ := r.starves_read d
  exact ⟨needed, call_eq_iff.mpr h⟩

/-- Nothing moves at the end of the input. -/
theorem perform_facing_nil (d : Decoder) (rs : List Request) :
    ((d.facing []).perform rs).2 = d.facing [] := by
  induction rs with
  | nil => rfl
  | cons r rs ih =>
    obtain ⟨needed, h⟩ := d.call_facing_nil r
    rw [perform, h]
    exact ih

/-- **Requests in a row**, the failed ones included, move the offset by what they read, until bytes
are missing. -/
theorem perform_spec (d : Decoder) (bs : Bytes) (rs : List Request) :
    (∀ o ∈ ((d.facing bs).perform rs).1, ¬ Missing o) ∧
        d.Behind bs ((d.facing bs).perform rs).2 ∨
      (∃ o ∈ ((d.facing bs).perform rs).1, Missing o) ∧
        d.Drained bs ((d.facing bs).perform rs).2 := by
  induction rs generalizing d bs with
  | nil => exact Or.inl ⟨List.forall_mem_nil _, .refl d bs⟩
  | cons r rs ih =>
    rw [perform]
    obtain ⟨hm, us, rest, rfl, hd⟩ | ⟨hm, k, hk, hd⟩ := d.call_spec bs r
    · rw [hd]
      refine (ih (d.moved us.length) rest).imp (fun h => ?_) fun h => ?_
      · exact ⟨List.forall_mem_cons.mpr ⟨hm, h.1⟩, h.2.trans⟩
      · exact ⟨List.exists_mem_cons_of_exists h.1, h.2.trans⟩
    · -- the input is used up, and what comes later does not move the offset any more
      refine Or.inr ⟨⟨_, List.mem_cons_self, hm⟩, k, hk, ?_⟩
      rw [hd, perform_facing_nil]

/-- **What is read** is what the request reads from nothing but the bytes between the two offsets,
without limits. -/
theorem run_read_of_call {d d' : Decoder} {bs : Bytes} {r : Request} {a : Item}
    (h : (d.facing bs).call r = (.ok a, d')) :
    r.read.run (.memory (bs.take (d'.position - d.position))) .unlimited = (.ok a, .memory []) := by
  obtain ⟨⟨hkind, hw, -⟩, used, rest, rfl, hs, rfl⟩ :=
    (reads_request r d bs a d').mp (call_eq_iff.mp h)
  have htake : (used ++ rest).take ((d.moved used.length).position - d.position) = used := by
    rw [position_moved, Nat.add_sub_cancel_left, List.take_left]
  refine (reads_request r).run_eq_ok_iff.mpr
    ⟨⟨hkind, hw, hw.within_unlimited⟩, used, [], ?_, hs, rfl⟩
  rw [List.append_nil]
  exact htake

/-- **Reads in a row.** The offset never decreases. Until bytes are missing it makes up the whole
input with the bytes that are left, and what is read depends on nothing but the bytes between the
offset before and behind. From then on no bytes are left, bytes are missing for every request, and
the offset stays. -/
theorem reads_in_a_row (bs : Bytes) (L : Limits) (rs : List Request) (r : Request) :
    let before := (Decoder.new (.memory bs) L).perform rs
    let next := before.2.call r
    before.2.position ≤ next.2.position ∧
    ((∀ o ∈ before.1, ¬ Missing o) →
      before.2.position + before.2.source.rest.length = bs.length) ∧
    (∀ a, next.1 = .ok a →
      r.read.run (.memory (bs.extract before.2.position next.2.position)) .unlimited =
        (.ok a, .memory [])) ∧
    ((∃ o ∈ before.1, Missing o) →
      before.2.source.rest = [] ∧ Missing next.1 ∧ next.2.position = before.2.position) := by
  intro before next
  obtain ⟨hm, us, rest, rfl, hd⟩ | ⟨hm, k, hk, hd⟩ :=
    (Decoder.new (.memory []) L).perform_spec bs rs
  · obtain ⟨d, hd, hposition⟩ : ∃ d : Decoder, before.2 = d.facing rest ∧ d.position = us.length :=
      ⟨_, hd, Nat.zero_add _⟩
    have hnext : next = (d.facing rest).call r := congrArg (·.call r) hd
    rw [hnext, hd]
    refine ⟨(d.call_spec rest r).position_le, fun _ => ?_, fun a ha => ?_, fun ⟨o, ho, hmo⟩ => ?_⟩
    · exact (congrArg (· + rest.length) hposition).trans List.length_append.symm
    · have hbetween (stop : Nat) :
          (us ++ rest).extract d.position stop = rest.take (stop - d.position) := by
        rw [List.extract_eq_take_drop, hposition, List.drop_left]
      exact (congrArg (fun bs => r.read.run (.memory bs) .unlimited) (hbetween _)).trans
        (run_read_of_call (Prod.ext ha rfl))
    · exact absurd hmo (hm o ho)
  · obtain ⟨d, hd⟩ : ∃ d : Decoder, before.2 = d.facing [] := ⟨_, hd⟩
    obtain ⟨needed, hcall⟩ := d.call_facing_nil r
    have hnext : next = (.error (.truncated d.position needed), d.facing []) :=
      (congrArg (·.call r) hd).trans hcall
    rw [hnext, hd]
    refine ⟨Nat.le_refl _, fun h => ?_, nofun, fun _ => ⟨rfl, missing_error_iff.mpr trivial, rfl⟩⟩
    obtain ⟨o, ho, hmo⟩ := hm
    exact absurd hmo (h o ho)

end Decoder

end MessageWire
