import MessageWire.Proofs.Instance.Edit
import MessageWire.Proofs.Instance.Encode
import MessageWire.Proofs.Wire.Lockstep
import MessageWire.Typed.Tree
import MessageWire.Value.Default

/-!
# Trees as messages

A tree is written and read by hand, or as a message under the schema of trees. The two agree.

* `Tree.Small`: trees whose numbers of children are words;
* `Tree.values`, `Tree.build`: the message of a tree, at once and by editing a default message,
  `Tree.build_eq`;
* **`Tree.write_eq`**: both ways to write a tree;
* `Read.message_tree`, **`Tree.tracks_read`**: both ways to read one;
* **`Tree.typed_agrees`**.
-/

namespace MessageWire

namespace Tree

/-! ## The message of a tree -/

mutual

/-- Fewer than `2 ^ 31` trees below every root. -/
def Small : Tree → Prop
  | node _ ts => ts.length < 2 ^ 31 ∧ SmallAll ts

/-- All trees of a list are small. -/
def SmallAll : List Tree → Prop
  | [] => True
  | t :: ts => Small t ∧ SmallAll ts

end

mutual

/-- The values of the fields of a tree. -/
def values : Tree → List (Value 4)
  | node v ts => [.scalar (.int32 v), .scalar (.int32 (.ofNat ts.length)), .array (messages ts)]

/-- Trees as messages inside another. -/
def messages : List Tree → List (Value 4)
  | [] => []
  | t :: ts => .message Builtin.tree (values t) :: messages ts

end

mutual

/-- The message that is built from a tree: a default message, in which first the number is set and
then the trees. -/
def build : Tree → Option (Instance 4)
  | node v ts => do
    let m ← (Builtin.catalog.new Builtin.tree).toOption
    let m ← (m.set Builtin.catalog "value" (.scalar (.int32 v))).toOption
    (m.setSequence Builtin.catalog "children" (← buildAll ts)).toOption

/-- The messages that are built from trees, as values. -/
def buildAll : List Tree → Option (List (Value 4))
  | [] => some []
  | t :: ts => do
    let m ← build t
    return m.toValue :: (← buildAll ts)

end

theorem length_messages (ts : List Tree) : (messages ts).length = ts.length := by
  induction ts with
  | nil => rfl
  | cons t ts ih => rw [messages, List.length_cons, ih, List.length_cons]

theorem conformsAll_messages (ts : List Tree) :
    Value.conformsAll Builtin.catalog (messages ts) (.message Builtin.tree) = true := by
  induction ts with
  | nil => rfl
  | cons t ts ih =>
    rw [messages, Value.conformsAll, ih, Bool.and_true]
    rfl

theorem new_eq : Builtin.catalog.new Builtin.tree =
    .ok ⟨Builtin.tree, [.scalar (.int32 0), .scalar (.int32 0), .array []]⟩ := by
  rw [Catalog.new, Catalog.defaultBelow]
  rfl

/-- Setting the trees of a message sets their number as well. -/
theorem setSequence_eq (a b c : Value 4) {ts : List Tree} (h : ts.length < 2 ^ 31) :
    Instance.setSequence Builtin.catalog ⟨Builtin.tree, [a, b, c]⟩ "children" (messages ts) =
      .ok ⟨Builtin.tree, [a, .scalar (.int32 (.ofNat ts.length)), .array (messages ts)]⟩ := by
  have hset : Instance.set Builtin.catalog ⟨Builtin.tree, [a, b, c]⟩ "children"
      (.array (messages ts)) = .ok ⟨Builtin.tree, [a, b, .array (messages ts)]⟩ :=
    Instance.set_eq_ok_iff.mpr ⟨2, _, rfl, conformsAll_messages ts, rfl⟩
  have hcount : Scalar.ofCount? .int32 (messages ts).length =
      some (.int32 (.ofNat ts.length)) := by
    rw [length_messages]
    exact if_pos h
  exact Instance.setSequence_of_counted rfl rfl hcount hset

mutual

/-- **A small tree can be built.** -/
theorem build_eq (t : Tree) (h : t.Small) : t.build = some ⟨Builtin.tree, t.values⟩ := by
  cases t with
  | node v ts =>
    obtain ⟨hl, hts⟩ := h
    rw [build, new_eq, buildAll_eq ts hts]
    exact congrArg Except.toOption (setSequence_eq _ _ _ hl)

theorem buildAll_eq (ts : List Tree) (h : SmallAll ts) : buildAll ts = some (messages ts) := by
  cases ts with
  | nil => rfl
  | cons t ts =>
    obtain ⟨ht, hts⟩ := h
    rw [buildAll, build_eq t ht, buildAll_eq ts hts]
    rfl

end

/-! ## Writing -/

/-- A number of trees that is a word is found again behind the number at the root. -/
theorem extent_eq (v : Int32) (ts : List Tree) (h : ts.length < 2 ^ 31) :
    Write.extent Builtin.catalog Builtin.tree (values (node v ts)) "children"
      (.counted "children_length") = pure ts.length := by
  funext e
  rw [Write.extent_counted_apply, values]
  change (if (Int32.ofNat ts.length).toInt < 0 then _ else _ : EStateM.Result _ _ _) = _
  have hk : (Int32.ofNat ts.length).toInt = ts.length := Int32.toInt_ofNat_of_lt h
  rw [if_neg (by omega), hk]
  rfl

mutual

/-- **Both ways to write a tree** do the same on every encoder. -/
theorem write_eq (t : Tree) (h : t.Small) :
    t.write = Instance.encodeFields Builtin.catalog ⟨Builtin.tree, t.values⟩ := by
  cases t with
  | node v ts =>
    obtain ⟨hl, hts⟩ := h
    have hwrite : write (node v ts) = (do
        Write.scalar (.int32 v)
        Write.scalar (.int32 (.ofNat ts.length))
        writeAll ts) := if_neg (Nat.not_le.mpr hl)
    have hscalar (siblings : List (Value 4)) (field : String) (v : Int32) :
        Write.value Builtin.catalog Builtin.tree siblings field (.primitive .int32)
          (.scalar (.int32 v)) = Write.scalar (.int32 v) := by
      rw [Write.value]
      exact if_pos rfl
    have harray : Write.value Builtin.catalog Builtin.tree (values (node v ts)) "children"
        (.array (.message Builtin.tree) (.counted "children_length")) (.array (messages ts)) =
          writeAll ts := by
      rw [Write.value, extent_eq v ts hl, pure_bind, length_messages, if_neg (fun h => h rfl),
        writeAll_eq _ ts hts]
    rw [hwrite]
    change _ = Write.fields Builtin.catalog Builtin.tree (values (node v ts))
      [⟨"value", .primitive .int32⟩, ⟨"children_length", .primitive .int32⟩,
        ⟨"children", .array (.message Builtin.tree) (.counted "children_length")⟩]
      [.scalar (.int32 v), .scalar (.int32 (.ofNat ts.length)), .array (messages ts)]
    simp only [Write.fields, hscalar, harray, bind_pure_unit]

theorem writeAll_eq (siblings : List (Value 4)) (ts : List Tree) (h : SmallAll ts) :
    writeAll ts = Write.elements Builtin.catalog Builtin.tree siblings "children"
      (.message Builtin.tree) (messages ts) := by
  cases ts with
  | nil => rfl
  | cons t ts =>
    obtain ⟨ht, hts⟩ := h
    rw [writeAll, messages, Write.elements, write_eq t ht, writeAll_eq siblings ts hts]
    rw [Write.value]
    rfl

end

/-! ## Reading -/

/-- The tree is small, and these are the values of its message. -/
def Corresponds (t : Tree) (vs : List (Value 4)) : Prop := t.Small ∧ vs = t.values

theorem smallAll_and_eq_messages {ts : List Tree} {vs : List (Value 4)}
    (h : List.Forall₂ (fun t v => t.Small ∧ v = .message Builtin.tree t.values) ts vs) :
    SmallAll ts ∧ vs = messages ts := by
  induction h with
  | nil => exact ⟨trivial, rfl⟩
  | cons h _ ih =>
    obtain ⟨ht, rfl⟩ := h
    obtain ⟨hts, rfl⟩ := ih
    exact ⟨⟨ht, hts⟩, rfl⟩

/-- Trees as many as a word says. -/
theorem Corresponds.node {v count : Int32} {ts : List Tree} (hc : count.toInt = ts.length)
    (hts : SmallAll ts) : Corresponds (.node v ts)
      [.scalar (.int32 v), .scalar (.int32 count), .array (messages ts)] := by
  have hl : ts.length < 2 ^ 31 := by
    have := count.toInt_lt
    omega
  have hcount : count = .ofNat ts.length :=
    Int32.toInt_inj.mp (hc.trans (Int32.toInt_ofNat_of_lt hl).symm)
  rw [hcount]
  exact ⟨⟨hl, hts⟩, rfl⟩

/-- **The fields of a tree as a message,** one after the other. -/
theorem message_eq (room : Nat) :
    Read.message Builtin.catalog (room + 1) Builtin.tree = (do
      let v ← Read.int32
      let (count, k) ← (do
        let offset ← Read.position
        let count ← Read.int32
        return (count, ← Read.countAt count.toInt offset))
      let items ← Read.times k (Read.level
        (return Value.message Builtin.tree (← Read.message Builtin.catalog room Builtin.tree)))
      return [.scalar (.int32 v), .scalar (.int32 count), .array items]) := by
  have hfields : (Builtin.catalog Builtin.tree).fields =
      [⟨"value", .primitive .int32⟩, ⟨"children_length", .primitive .int32⟩,
        ⟨"children", .array (.message Builtin.tree) (.counted "children_length")⟩] := rfl
  have hcounted (v w : Int32) (o o' : Nat) : Read.counted (Builtin.catalog Builtin.tree)
      [(.scalar (.int32 v), o), (.scalar (.int32 w), o')] "children_length" =
        Read.countAt w.toInt o' := rfl
  have hposition {α : Type} (act : Read α) : (Read.position >>= fun _ => act) = act := rfl
  simp only [Read.message, hfields, Read.fields, Read.kind, Read.scalar, List.nil_append,
    List.cons_append, bind_assoc, pure_bind, hcounted, hposition, List.map_cons, List.map_nil]

/-- **Both ways to read a tree** keep step. -/
theorem tracks_read (room : Nat) :
    Tracks Corresponds (read room) (Read.message Builtin.catalog room Builtin.tree) := by
  induction room with
  | zero => exact fun d => Or.inr ⟨_, _, d, Or.inl rfl, rfl, rfl⟩
  | succ room ih =>
    rw [message_eq]
    have hread : read (room + 1) = (do
        let v ← Read.int32
        let k ← (do let count ← Read.int32; Read.count count.toInt)
        return node v (← Read.times k (Read.level (read room)))) := by
      simp only [read, bind_assoc]
    rw [hread]
    refine (Tracks.refl _).bind fun v w hv => tracks_count.bind fun k p hp => ?_
    obtain ⟨rfl, hcount⟩ := hp
    have hitem : Tracks (fun t v => t.Small ∧ v = .message Builtin.tree t.values)
        (Read.level (read room)) (Read.level
          (return Value.message Builtin.tree (← Read.message Builtin.catalog room Builtin.tree))) :=
      (ih.map_right fun t vs h => ⟨h.1, congrArg _ h.2⟩).level
    refine (hitem.times p.2).map fun ts vs ⟨hk, hts⟩ => ?_
    obtain ⟨hsmall, rfl⟩ := smallAll_and_eq_messages hts
    rw [hv]
    exact .node (by rw [hcount, hk]) hsmall

/-! ## Both ways -/

/-- **A typed tree is the message that is built from it.** A small tree and its message have the
same bytes. From any source, under any limits, both ways of reading come to a tree and its message
and leave the same, or fail for the same reason; only the offset of a bad number of children may
differ. -/
theorem typed_agrees :
    (∀ t : Tree, t.Small →
      ∃ m, t.build = some m ∧ Message.toBytes t = m.toBytes Builtin.catalog) ∧
    ∀ (source : Source) (limits : Limits),
      (∃ t m left, t.build = some m ∧
        (Message.decode Tree).run source limits = (.ok t, left) ∧
        (Instance.decode Builtin.catalog Builtin.tree).run source limits = (.ok m, left)) ∨
      ∃ e e' left, (e = e' ∨ ∃ k offset, e = .invalidLength .array k (offset + 4) ∧
          e' = .invalidLength .array k offset) ∧
        (Message.decode Tree).run source limits = (.error e, left) ∧
        (Instance.decode Builtin.catalog Builtin.tree).run source limits = (.error e', left) := by
  refine ⟨fun t ht => ⟨_, build_eq t ht, ?_⟩, fun source limits => ?_⟩
  · rw [Message.toBytes, Instance.toBytes]
    refine congrArg Write.toBytes ?_
    rw [Instance.encode, ← write_eq t ht]
    rfl
  · have hdecode : Tracks (fun t m => t.Small ∧ m = ⟨Builtin.tree, t.values⟩)
        (Message.decode Tree) (Instance.decode Builtin.catalog Builtin.tree) :=
      (Tracks.refl _).bind fun _ _ _ => (Tracks.refl _).bind fun room _ hroom => by
        rw [← hroom]
        exact ((tracks_read room).map_right fun t vs h => ⟨h.1, congrArg _ h.2⟩).level
    obtain ⟨t, m, left, ⟨ht, rfl⟩, h, h'⟩ | ⟨e, e', left, he, h, h'⟩ :=
      hdecode.run source limits
    · exact Or.inl ⟨t, _, left, build_eq t ht, h, h'⟩
    · exact Or.inr ⟨e, e', left, he, h, h'⟩

/-- Two trees below a number, with one more below the second. -/
theorem typed_agrees_of_four_numbers :
    Small (node 1 [node 2 [], node 3 [node 4 []]]) ∧
      ∃ m, build (node 1 [node 2 [], node 3 [node 4 []]]) = some m ∧
        Message.toBytes (node 1 [node 2 [], node 3 [node 4 []]]) = m.toBytes Builtin.catalog := by
  have h : Small (node 1 [node 2 [], node 3 [node 4 []]]) := by simp [Small, SmallAll]
  exact ⟨h, typed_agrees.1 _ h⟩

end Tree

end MessageWire
