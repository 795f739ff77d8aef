import MessageWire.Proofs.Wire.Pieces
import MessageWire.Proofs.Wire.Request

/-!
# Items are read back as they were written

Scalars and fingerprints have no marks between them. A decoder that asks for the same kinds in the
same order finds every item where it was written.

* `Item.call`: the call of an encoder that writes an item, `Item.call_eq`, `Item.writable_of_call`;
* `Encoder.perform_items`, `Encoder.writable_of_perform`: items that are written in a row;
* `Decoder.perform_items`: items that are asked for in a row;
* **`Item.read_back`**.
-/

namespace MessageWire

/-! ## Writing items -/

namespace Item

/-- The call that writes an item. -/
def call : Item → Call
  | scalar v => .scalar v
  | fingerprint fp => .fingerprint fp

variable {e : Encoder}

/-- **An item with a wire form** leaves the bytes of its cells. -/
theorem call_eq (h : e.Open) {a : Item} (ha : a.Writable) :
    e.call a.call = (.ok (), e.put (wire a.cells)) := by
  cases a with
  | scalar v => rw [call, Encoder.call, Call.write, Write.scalar_eq h ha, cells]
  | fingerprint fp =>
    rw [call, Encoder.call, Call.write, Write.fingerprint, Write.all_eq h, cells, wire_contents]

/-- An item that is written has a wire form. -/
theorem writable_of_call {a : Item} (h : (e.call a.call).1 = .ok ()) : a.Writable := by
  cases a with
  | scalar v =>
    by_contra hv
    obtain ⟨err, he⟩ := Write.scalar_error (e := e) hv
    have hcall : e.call (.scalar v) = (.error err, e) := by rw [Encoder.call, Call.write, he]
    rw [call, hcall] at h
    cases h
  | fingerprint fp => trivial

end Item

namespace Encoder

/-- **Items in a row** leave the bytes of their cells, one behind the other. -/
theorem perform_items {e : Encoder} (h : e.Open) {items : List Item}
    (hw : ∀ a ∈ items, a.Writable) :
    e.perform (items.map Item.call) =
      (items.map fun _ => .ok (), e.put (wire (items.flatMap Item.cells))) := by
  induction items generalizing e with
  | nil => exact congrArg (Prod.mk []) e.put_nil.symm
  | cons a items ih =>
    rw [List.forall_mem_cons] at hw
    rw [List.map_cons, perform, Item.call_eq h hw.1, ih (h.put _) hw.2, put_put, List.flatMap_cons,
      wire_append]
    rfl

/-- Items that are all written have wire forms. -/
theorem writable_of_perform {e : Encoder} (h : e.Open) {items : List Item}
    (hok : ∀ answer ∈ (e.perform (items.map Item.call)).1, answer = .ok ()) :
    ∀ a ∈ items, a.Writable := by
  induction items generalizing e with
  | nil => exact List.forall_mem_nil _
  | cons a items ih =>
    rw [List.map_cons, perform, List.forall_mem_cons] at hok
    have ha := Item.writable_of_call hok.1
    rw [Item.call_eq h ha] at hok
    exact List.forall_mem_cons.mpr ⟨ha, ih (h.put _) hok.2⟩

end Encoder

/-! ## Reading them back -/

namespace Decoder

/-- **Items that are asked for in a row** are found one behind the other, and what follows them is
left. -/
theorem perform_items {d : Decoder} {items : List Item} (hw : ∀ a ∈ items, a.Writable)
    (hL : ∀ a ∈ items, a.Within d.limits) (T : Bytes) :
    (d.facing (wire (items.flatMap Item.cells) ++ T)).perform (items.map Item.request) =
      (items.map .ok, (d.moved (wire (items.flatMap Item.cells)).length).facing T) := by
  induction items generalizing d with
  | nil => rfl
  | cons a items ih =>
    rw [List.forall_mem_cons] at hw hL
    have hcall (rest : Bytes) : (d.facing (wire a.cells ++ rest)).call a.request =
        (.ok a, (d.moved (wire a.cells).length).facing rest) :=
      call_eq_iff.mpr ((reads_request a.request d _ a _).mpr
        ⟨⟨rfl, hw.1, hL.1⟩, wire a.cells, rest, rfl, spells_wire _, rfl⟩)
    have hitems := ih (d := d.moved (wire a.cells).length) hw.2 hL.2
    rw [moved_moved] at hitems
    rw [List.flatMap_cons, wire_append, List.append_assoc, List.map_cons, perform, hcall, hitems,
      List.length_append]
    rfl

end Decoder

namespace Item

/-- The encoder that has written some items to a sink that is never full. -/
def written (items : List Item) : Encoder := ((Encoder.new .memory).perform (items.map call)).2

theorem written_eq {items : List Item} (hw : ∀ a ∈ items, a.Writable) :
    written items = (Encoder.new .memory).put (wire (items.flatMap cells)) := by
  rw [written, Encoder.perform_items Encoder.open_new_memory hw]

theorem held_written {items : List Item} (hw : ∀ a ∈ items, a.Writable) :
    (written items).sink.held.toList = wire (items.flatMap cells) := by
  rw [written_eq hw]
  simp [Encoder.put, Encoder.new, Sink.memory]

theorem position_written {items : List Item} (hw : ∀ a ∈ items, a.Writable) :
    (written items).position = (wire (items.flatMap cells)).length := by
  rw [written_eq hw]
  exact Nat.zero_add _

/-- The first of the items that were written are read back, and the decoder stands in front of the
others. -/
theorem perform_written {front back : List Item} {L : Limits}
    (hw : ∀ a ∈ front ++ back, a.Writable) (hL : ∀ a ∈ front, a.Within L) (T : Bytes) :
    (Decoder.new (.memory ((written (front ++ back)).sink.held.toList ++ T)) L).perform
        (front.map request) =
      (front.map .ok, ((Decoder.new (.memory []) L).moved (written front).position).facing
        (wire (back.flatMap cells) ++ T)) := by
  have hfront : ∀ a ∈ front, a.Writable := fun a ha => hw a (List.mem_append_left _ ha)
  rw [held_written hw, position_written hfront, List.flatMap_append, wire_append, List.append_assoc]
  exact Decoder.perform_items (d := .new (.memory []) L) hfront hL _

/-- **Items are read back as they were written.** If an encoder has written all of some items, then
a decoder that is asked for their kinds under limits that admit them, whatever follows them, gives
the same items in the same order, is at the offset of the encoder after each of them, and leaves
what follows. -/
theorem read_back {items : List Item} {L : Limits} (T : Bytes)
    (hok : ∀ answer ∈ ((Encoder.new .memory).perform (items.map call)).1, answer = .ok ())
    (hL : ∀ a ∈ items, a.Within L) :
    let d := Decoder.new (.memory ((written items).sink.held.toList ++ T)) L
    (d.perform (items.map request)).1 = items.map .ok ∧
    (d.perform (items.map request)).2.source = .memory T ∧
    ∀ k, (d.perform ((items.take k).map request)).2.position =
      (written (items.take k)).position := by
  intro d
  have hw := Encoder.writable_of_perform Encoder.open_new_memory hok
  have hread (front back : List Item) (h : front ++ back = items) :
      d.perform (front.map request) =
        (front.map .ok, ((Decoder.new (.memory []) L).moved (written front).position).facing
          (wire (back.flatMap cells) ++ T)) := by
    subst h
    exact perform_written hw (fun a ha => hL a (List.mem_append_left _ ha)) T
  refine ⟨?_, ?_, fun k => ?_⟩
  · rw [hread items [] (List.append_nil items)]
  · rw [hread items [] (List.append_nil items)]
    rfl
  · rw [hread _ _ (List.take_append_drop k items)]
    exact Nat.zero_add _

/-- A negative number, a truth value, a text, a float that is no number, and a fingerprint. -/
def mixed : List Item :=
  [.scalar (.int16 (-2)), .scalar (.boolean true), .scalar (.text "é"),
    .scalar (.float32 ⟨0xffa00001⟩), .fingerprint ⟨0xae7e5fba5eeca11e⟩]

/-- What is written for them, and how it is read in front of two more bytes. -/
theorem read_back_mixed :
    (written mixed).sink.held.toList =
      [0xff, 0xfe, 1, 0, 0, 0, 3, 0xc3, 0xa9, 0, 0xff, 0xa0, 0, 1,
        0xae, 0x7e, 0x5f, 0xba, 0x5e, 0xec, 0xa1, 0x1e] ∧
    (∀ answer ∈ ((Encoder.new .memory).perform (mixed.map call)).1, answer = .ok ()) ∧
    (∀ a ∈ mixed, a.Within .standard) ∧
    let d := Decoder.new (.memory ((written mixed).sink.held.toList ++ [1, 7])) .standard
    (d.perform [.scalar .int16, .scalar .boolean, .scalar .text, .scalar .float32,
      .fingerprint]).1 = mixed.map .ok ∧
    (d.perform (mixed.map request)).2.source = .memory [1, 7] ∧
    (d.perform [.scalar .int16, .scalar .boolean, .scalar .text]).2.position = 10 := by
  have hok : ∀ answer ∈ ((Encoder.new .memory).perform (mixed.map call)).1, answer = .ok () := by
    decide
  have hL : ∀ a ∈ mixed, a.Within .standard := by decide
  obtain ⟨hitems, hsource, hposition⟩ := read_back [1, 7] hok hL
  exact ⟨rfl, hok, hL, hitems, hsource, hposition 3⟩

end Item

end MessageWire
