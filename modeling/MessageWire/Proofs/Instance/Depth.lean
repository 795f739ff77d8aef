import MessageWire.Proofs.Instance.Closed
import MessageWire.Proofs.Typed.Depth

/-!
# The depth of messages

A decoder reads a message field by field, and the messages inside in the same way, each on a level
of its own. Nothing but the limit on levels stops it where a schema embeds itself by value.

* `Read.inner`, `Read.contents`, `Read.values`: the messages inside, one message given those inside,
  and one message with all that is inside;
* `Read.nests_kind`, `Read.nests_fields`, `Read.nests_contents`: messages nest;
* `Read.message_eq`, **`Instance.decode_eq`**: the decoder needs no bound of its own;
* **`Instance.levels_balanced_and_bounded`**: balanced levels, the range of the depth, and the end of
  decoding.
-/

namespace MessageWire

variable {n : Nat}

namespace Read

/-- A message inside another, given the reader of its values. -/
def inner (inside : Fin n → Read (List (Value n))) (t : Fin n) : Read (Value n) :=
  return .message t (← level (inside t))

/-- The values of a message, given the readers of those of the messages inside. -/
def contents (G : Catalog n) (inside : Fin n → Read (List (Value n))) (s : Fin n) :
    Read (List (Value n)) :=
  return (← fields (inner inside) (G s) [] (G s).fields).map (·.1)

/-- The values of a message and of all messages inside. -/
def values (G : Catalog n) : Fin n → Read (List (Value n)) := whole (contents G)

/-! ## Messages nest -/

theorem nests_inner (t : Fin n) : Nests fun inside => inner inside t :=
  (Nests.level (A := fun _ => List (Value n)) t).map (Value.message t)

/-- **A value of a kind** nests. -/
theorem nests_kind (S : Schema n) (done : List (Value n × Nat)) (kind : Kind n) :
    Nests fun inside => Read.kind (inner inside) S done kind := by
  induction kind with
  | primitive p => exact .program (Program.closed.map (Program.closed.scalar p) _)
  | message t => exact nests_inner t
  | array element x ih =>
    cases x with
    | fixed size => exact (ih.times _).map _
    | counted c =>
      exact .bind (.program (Program.closed.counted c)) fun k => (ih.times k).map _

theorem nests_fields (S : Schema n) (done : List (Value n × Nat)) (fs : List (Field n)) :
    Nests fun inside => fields (inner inside) S done fs := by
  induction fs generalizing done with
  | nil => exact .program (.pure done)
  | cons f fs ih =>
    refine .bind (.program Program.closed.position) fun offset => ?_
    exact .bind (nests_kind S done f.kind) fun v => ih _

/-- **A message** nests. -/
theorem nests_contents (G : Catalog n) (s : Fin n) : Nests fun inside => contents G inside s :=
  (nests_fields (G s) [] (G s).fields).map _

variable {G : Catalog n}

theorem program_values (s : Fin n) : Program False _ (values G s) :=
  program_whole (nests_contents G) s

/-- Room for so many messages inside each other. -/
theorem message_eq (room : Nat) : message G room = (contents G)^[room] fun _ => refused := by
  induction room with
  | zero => rfl
  | succ room ih =>
    rw [Function.iterate_succ_apply', ← ih]
    funext s
    rw [message, contents]
    simp only [level_map]
    rfl

end Read

/-! ## Whole messages -/

namespace Instance

/-- A message of schema `s` with its fingerprint, given the reader of its values. -/
def decodeBy (G : Catalog n) (inside : Fin n → Read (List (Value n))) (s : Fin n) :
    Read (Instance n) := do
  Read.expect (G s).name (G.fingerprint s)
  return ⟨s, ← Read.level (inside s)⟩

variable {G : Catalog n}

theorem nests_decodeBy (s : Fin n) : Read.Nests fun inside => decodeBy G inside s :=
  .bind (.program (Read.Program.closed.expect _ _)) fun _ =>
    (Read.Nests.level (A := fun _ => List (Value n)) s).map (Instance.mk s)

/-- **The decoder needs no bound of its own.** -/
theorem decode_eq (s : Fin n) : decode G s = decodeBy G (Read.values G) s := by
  have hroom : (do let room ← Read.levels; Read.level (Read.message G room s)) =
      Read.level (Read.values G s) := by
    simp only [Read.message_eq]
    exact Read.level_room (Read.nests_contents G) _ s
  simp only [decode, decodeBy, Read.level_map, ← hroom, bind_assoc]

/-- Of a whole message no more is read than there are levels. -/
theorem decodeBy_iterate (bottom : Fin n → Read (List (Value n))) {d : Decoder} {room : Nat}
    (hr : d.levels ≤ room) (s : Fin n) :
    decodeBy G ((Read.contents G)^[room] bottom) s d = decode G s d := by
  rw [decode_eq]
  exact (nests_decodeBy s).sameDown Read.program_values
    (Read.sameDown_level (Read.nests_contents G) bottom room) d hr

/-- **Levels are closed again, there are never more of them than the limit, and so decoding ends.**
A value, the values of a message and a whole message leave the depth as they found it, and so does a
typed message inside another whose fields open levels only for messages inside. Whatever is done with
a new decoder, the depth stays within the limit, and a level is refused exactly at the limit. Readers
of messages that nest come to an end, those of the schemas among them; and a whole message is
complete with as many messages, one inside the other, as the limit allows. -/
theorem levels_balanced_and_bounded (G : Catalog n) :
    ((∀ S done kind, (Read.kind (Read.inner (Read.values G)) S done kind).Balanced) ∧
      (∀ s, (Read.values G s).Balanced) ∧ (∀ s, (decode G s).Balanced) ∧
      ∀ (α : Type) [Message α], (∀ room, Read.Program False α (Message.read room)) →
        (Read.nested α).Balanced) ∧
    (∀ (α : Type) (act : Read α), Read.Program True α act → ∀ source limits,
      let d := act.after (.new source limits)
      d.depth ≤ limits.maxDepth.toNat ∧
        Read.enter d =
          if d.depth = limits.maxDepth.toNat then .error (.tooDeep limits.maxDepth) d
          else .ok () d.deeper) ∧
    (∀ (ι : Type) (A : ι → Type) (body : Read.Readers A → Read.Readers A),
      (∀ i, Read.Nests fun inside => body inside i) → Read.Ends body (Read.whole body)) ∧
    Read.Ends (Read.contents G) (Read.values G) ∧
    ∀ s, decode G s = decodeBy G (Read.values G) s ∧
      ∀ bottom source limits,
        (decodeBy G ((Read.contents G)^[limits.maxDepth.toNat] bottom) s).run source limits =
          (decode G s).run source limits := by
  refine ⟨⟨?_, ?_, ?_, ?_⟩, ?_, ?_, ?_, fun s => ⟨decode_eq s, ?_⟩⟩
  · intro S done kind
    exact ((Read.nests_kind S done kind).program_of Read.program_values).balanced
  · intro s
    exact (Read.program_values s).balanced
  · intro s
    exact (Read.Program.closed.decode G s).balanced
  · intro α _ h
    exact (Read.Program.nested h).balanced
  · intro α act h source limits
    have hd := h.accounted (.new source limits)
    have hle := hd.within (Nat.zero_le _)
    have he := Read.enter_of_le (hd.limits ▸ hle)
    rw [hd.limits] at he
    exact ⟨hle, he⟩
  · intro ι A body h
    exact Read.ends_whole h
  · exact Read.ends_whole (Read.nests_contents G)
  · intro bottom source limits
    have hr : (Decoder.new source limits).levels ≤ limits.maxDepth.toNat := Nat.sub_le _ _
    rw [Read.run, Read.run, decodeBy_iterate bottom hr]

/-- A schema that embeds itself by value. -/
def endless : Catalog 1 := fun _ =>
  ⟨"Endless", [⟨"next", .message (.last 0)⟩], 3, [], by decide, by simp [Declared, Kind.extents]⟩

/-- Closes a level where none is open, opens one, and tries another. -/
def climb : Read Unit := do
  Read.leave
  Read.enter
  let _ ← Read.enter.attempt

theorem program_climb : Read.Program True _ climb :=
  .bind (.leave trivial) fun _ => .bind (.enter trivial) fun _ =>
    .bind (.attempt (.enter trivial)) fun _ => .pure ()

/-- Trees are read on balanced levels, and reading them ends. Under a limit of one, a program that has
opened one level cannot open another; under a limit of two, a schema that embeds itself is refused,
whatever stands below three of its messages. -/
theorem levels_balanced_and_bounded_endless :
    (Read.nested Tree).Balanced ∧ Read.Ends Tree.fields (Read.whole Tree.fields) ∧
    (let d := climb.after (.new (.memory []) ⟨0, 0, 1⟩)
     d.depth = 1 ∧ Read.enter d = .error (.tooDeep 1) d) ∧
    (Read.contents endless)^[3] (fun _ => pure []) 0 (.new (.memory []) ⟨0, 0, 2⟩) =
      .error (.tooDeep 2) (.new (.memory []) ⟨0, 0, 2⟩) := by
  have h := levels_balanced_and_bounded endless
  refine ⟨h.1.2.2.2 Tree Tree.program_read, h.2.2.1 _ _ _ Tree.nests_fields, ⟨rfl, ?_⟩, ?_⟩
  · exact (h.2.1 Unit climb program_climb (.memory []) ⟨0, 0, 1⟩).2
  · exact (h.2.2.2.1.below (fun _ => pure []) 3 0 (.new (.memory []) ⟨0, 0, 2⟩) (by decide)).trans rfl

end Instance

end MessageWire
