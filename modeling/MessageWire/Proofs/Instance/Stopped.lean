import MessageWire.Proofs.Instance.Layout
import MessageWire.Proofs.Instance.Lookup

/-!
# What is left of a message that is not encoded

When an encoder stops, the sink holds the scalars of the nodes that it has passed, and the error
says which node is the next and how many bytes there are.

* `Node.scalar?`, `Node.wire_flatMap_cells`: what nodes leave, scalar by scalar;
* `Instance.bytesBefore`, `Instance.encode_stops`, `Instance.exists_offends`: what is left in front of
  a node;
* **`Instance.encode_stops_iff`**: the errors of an encoder, with what is left in the sink.
-/

namespace MessageWire

variable {n : Nat} {G : Catalog n}

/-- The scalar of a node that is a leaf. -/
def Node.scalar? (a : Node n) : Option Scalar :=
  match a.value with
  | .scalar v => some v
  | _ => none

/-- Nodes leave the scalars among them. -/
theorem Node.wire_flatMap_cells (as : List (Node n)) :
    wire (as.flatMap Node.cells) = (as.filterMap Node.scalar?).flatMap Scalar.bytes := by
  induction as with
  | nil => rfl
  | cons a as ih =>
    obtain ⟨m, field, kind, v⟩ := a
    rw [List.flatMap_cons, wire_append, ih]
    cases v <;> rfl

theorem Write.toBytes_eq_error {act : Write Unit} {err : WireError}
    (h : (act.into .memory).1 = .error err) : act.toBytes = .error err := by
  rw [Write.toBytes]
  split
  · rename_i hi
    rw [hi] at h
    cases h
  · rename_i hi
    rw [hi] at h
    rw [Except.error.inj h]

/-- The bytes and the position of an encoder that was new. -/
theorem Encoder.put_new (bs : Bytes) :
    ((new .memory).put bs).sink.held.toList = bs ∧ ((new .memory).put bs).position = bs.length :=
  ⟨by simp [put, new, Sink.memory], Nat.zero_add _⟩

namespace Instance

variable {m : Instance n} {err : WireError}

/-- What is left of a message in front of a node: its fingerprint, and the scalars of the nodes
`before`. -/
def bytesBefore (G : Catalog n) (m : Instance n) (before : List (Node n)) : Bytes :=
  (G.fingerprint m.schema).toBytes ++ (before.filterMap Node.scalar?).flatMap Scalar.bytes

/-- An encoder stops at the first node that something is wrong with. -/
theorem encode_stops {before after : List (Node n)} {a : Node n}
    (has : m.nodes G = before ++ a :: after) (hbefore : ∀ b ∈ before, b.Sound G)
    (ha : a.Offends G (m.bytesBefore G before).length err) :
    ((m.encode G).into .memory).1 = .error err ∧
      ((m.encode G).into .memory).2.held.toList = m.bytesBefore G before := by
  have ho := Encoder.open_new_memory.put (G.fingerprint m.schema).toBytes
  obtain ⟨hheld, hposition⟩ := Encoder.put_new (m.bytesBefore G before)
  rw [← hposition] at ha
  have hwrite := ha.write_eq
  rw [bytesBefore, ← Node.wire_flatMap_cells, ← Encoder.put_put] at hwrite
  have hrun := Write.forM_stops ho hbefore hwrite after
  rw [← has, ← encodeFields_eq_forM] at hrun
  rw [Write.into, encode, bind_ok (fingerprint_new _), bind_error hrun, Encoder.put_put,
    Node.wire_flatMap_cells]
  exact ⟨rfl, hheld⟩

/-- An encoder that fails has come to a node that something is wrong with. -/
theorem exists_offends (h : ((m.encode G).into .memory).1 = .error err) :
    ∃ before a after, m.nodes G = before ++ a :: after ∧ (∀ b ∈ before, b.Sound G) ∧
      a.Offends G (m.bytesBefore G before).length err := by
  obtain ⟨before, a, after, has, hbefore, e, ha⟩ :=
    exists_of_toBytes_eq_error (Write.toBytes_eq_error h)
  obtain ⟨hoffends, -⟩ := Node.offends_of_write_eq_error (Encoder.open_new_memory.put _)
    (fun _ _ hk => exists_count has hbefore hk) ha
  rw [Node.wire_flatMap_cells, (Encoder.put_new _).2] at hoffends
  exact ⟨before, a, after, has, hbefore, hoffends⟩

/-- **Where an encoder stops.** A message fails with an error, and leaves some bytes, exactly if
there is a first node that cannot be written: the bytes are the fingerprint and the scalars of the
nodes before, and the error says what is wrong with the node and how many bytes there are. -/
theorem encode_stops_iff (G : Catalog n) (m : Instance n) (err : WireError) (bs : Bytes) :
    (((m.encode G).into .memory).1 = .error err ∧
        ((m.encode G).into .memory).2.held.toList = bs) ↔
      ∃ before a after, m.nodes G = before ++ a :: after ∧ (∀ b ∈ before, b.Sound G) ∧
        a.Offends G bs.length err ∧
        bs = (G.fingerprint m.schema).toBytes ++
          (before.filterMap Node.scalar?).flatMap Scalar.bytes := by
  constructor
  · rintro ⟨herr, rfl⟩
    obtain ⟨before, a, after, has, hbefore, ha⟩ := exists_offends herr
    have hheld := (encode_stops has hbefore ha).2
    exact ⟨before, a, after, has, hbefore, hheld ▸ ha, hheld⟩
  · rintro ⟨before, a, after, has, hbefore, ha, rfl⟩
    exact encode_stops has hbefore ha

/-- A terminator at the second place of a text that comes behind twenty bytes. -/
example : ((encode Builtin.catalog ⟨Builtin.header, [.scalar (.int32 0),
    .message Builtin.time [.scalar (.int32 0), .scalar (.int32 0)],
    .scalar (.text "a\x00b")]⟩).into .memory).1 = .error (.embeddedNul 25) := by rfl

end Instance

end MessageWire
