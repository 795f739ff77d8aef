import MessageWire.Instance.Encode
import MessageWire.Proofs.Value.Node
import MessageWire.Proofs.Wire.Write

/-!
# Encoding node by node

An encoder checks and writes the nodes of a message one after the other, in depth-first order, and
what it does at one of them does not depend on the others.

* `Node.write`, **`Write.fields_eq_forM`**: the encoder as a visit of all nodes;
* `Node.write_eq`, `Node.write_error`: a sound node leaves the bytes of its cells, any other stops
  the encoder and leaves nothing;
* `Write.forM_eq`, `Write.forM_error`: a row of nodes;
* `Instance.toBytes_eq_ok_iff`: the messages that can be encoded and their bytes,
  **`Instance.exists_toBytes_iff_wellFormed`**.
-/

namespace MessageWire

open EStateM (Result)

variable {n : Nat} (G : Catalog n)

/-! ## The encoder as a visit -/

/-- What an encoder does at a node by itself. -/
def Node.write (a : Node n) : Write Unit :=
  match a.kind, a.value with
  | .primitive p, .scalar v =>
    if v.kind = p then Write.scalar v else Write.mismatch G a.field (.primitive p)
  | .message t, .message u _ =>
    if G.compatible u t then pure () else Write.mismatch G a.field (.message t)
  | .array _ x, .array items => do
    let k ← Write.extent G a.around.schema a.around.values a.field x
    if items.length ≠ k then throw (.lengthMismatch a.field k items.length)
  | kind, _ => Write.mismatch G a.field kind

namespace Write

theorem mismatch_bind {α β : Type} (field : String) (kind : Kind n) (next : α → Write β) :
    (mismatch G field kind >>= next) = mismatch G field kind := throw_bind _

mutual

theorem value_eq_forM (m : Instance n) (field : String) (kind : Kind n) (v : Value n) :
    value G m.schema m.values field kind v = forM (v.nodes G m field kind) (Node.write G) := by
  cases v with
  | scalar v => cases kind <;> simp [value, Value.nodes, Node.write]
  | message u values =>
    cases kind with
    | message t =>
      rw [value, Value.nodes, List.forM_cons, Node.write]
      dsimp only
      by_cases h : G.compatible u t
      · rw [if_pos h, if_pos h, pure_bind]
        -- the message is checked against its own schema, not against that of the kind
        exact fields_eq_forM ⟨u, values⟩ (G u).fields values
      · rw [if_neg h, if_neg h, mismatch_bind]
    | _ => simp [value, Value.nodes, Node.write]
  | array items =>
    cases kind with
    | array element x =>
      rw [value, Value.nodes, List.forM_cons, Node.write]
      dsimp only
      rw [bind_assoc]
      congr 1
      funext k
      by_cases h : items.length ≠ k
      · rw [if_pos h, if_pos h, throw_bind, throw_bind]
      · rw [if_neg h, if_neg h, pure_bind]
        exact elements_eq_forM m field element items
    | _ => simp [value, Value.nodes, Node.write]

theorem elements_eq_forM (m : Instance n) (field : String) (kind : Kind n) (vs : List (Value n)) :
    elements G m.schema m.values field kind vs =
      forM (Value.nodesAll G m field kind vs) (Node.write G) := by
  cases vs with
  | nil => rfl
  | cons v vs =>
    rw [elements, Value.nodesAll, List.forM_append, value_eq_forM m field kind v,
      elements_eq_forM m field kind vs]

/-- **Encoding visits the nodes one by one.** -/
theorem fields_eq_forM (m : Instance n) (fs : List (Field n)) (vs : List (Value n)) :
    fields G m.schema m.values fs vs = forM (Value.nodesFields G m fs vs) (Node.write G) := by
  cases vs with
  | nil => cases fs <;> rfl
  | cons v vs =>
    cases fs with
    | nil => rfl
    | cons f fs =>
      rw [fields, Value.nodesFields, List.forM_append, value_eq_forM m f.name f.kind v,
        fields_eq_forM m fs vs]

end

end Write

/-! ## One node -/

theorem Extent.Counts.unique {S : Schema n} {values : List (Value n)} {x : Extent} {k l : Nat}
    (hk : x.Counts S values k) (hl : x.Counts S values l) : k = l := by
  cases x with
  | fixed size => exact hk.trans hl.symm
  | counted c => exact Int.ofNat_inj.mp (Option.some.inj (hk.symm.trans hl))

namespace Write

variable {G}

/-- A counted extent looks up its field, the number in it, and the sign of the number. -/
theorem extent_counted_apply (s : Fin n) (values : List (Value n)) (field c : String)
    (e : Encoder) :
    extent G s values field (.counted c) e = match ((G s).index? c).bind (values[·]?) with
      | none => .error (.unknownField c) e
      | some v => match v.toInt? with
        | none => .error (.typeMismatch c ("integer count for " ++ ticked field)) e
        | some k =>
          if k < 0 then .error (.invalidLength .array k e.position) e else .ok k.toNat e := by
  rw [extent]
  cases ((G s).index? c).bind (values[·]?) with
  | none => rfl
  | some v =>
    dsimp only
    cases v.toInt? with
    | none => rfl
    | some k =>
      by_cases h : k < 0
      · simp only [if_pos h]
        rfl
      · simp only [if_neg h]
        rfl

/-- A count that is found is in question only for its sign. -/
theorem extent_of_count? {s : Fin n} {values : List (Value n)} {c : String} {k : Int}
    (h : (G s).count? values c = some k) (field : String) (e : Encoder) :
    extent G s values field (.counted c) e =
      if k < 0 then .error (.invalidLength .array k e.position) e else .ok k.toNat e := by
  obtain ⟨v, hv, hk⟩ := Option.bind_eq_some_iff.mp h
  rw [extent_counted_apply, hv]
  dsimp only
  rw [hk]

/-- The length that an extent asks for is found, or there is none and the encoder stops. Nothing is
written. -/
theorem extent_eq_or_error (s : Fin n) (values : List (Value n)) (field : String) (x : Extent)
    (e : Encoder) :
    (∃ k, x.Counts (G s) values k ∧ extent G s values field x e = .ok k e) ∨
      (∀ k, ¬ x.Counts (G s) values k) ∧ ∃ err, extent G s values field x e = .error err e := by
  cases x with
  | fixed size => exact Or.inl ⟨size.toNat, rfl, rfl⟩
  | counted c =>
    rw [extent_counted_apply]
    simp only [Extent.Counts, Schema.count?]
    cases ((G s).index? c).bind (values[·]?) with
    | none => exact Or.inr ⟨fun k h => (Option.some_ne_none _ h.symm).elim, _, rfl⟩
    | some v =>
      rw [Option.bind_some]
      dsimp only
      cases v.toInt? with
      | none => exact Or.inr ⟨fun k h => (Option.some_ne_none _ h.symm).elim, _, rfl⟩
      | some k =>
        dsimp only
        by_cases h : k < 0
        · rw [if_pos h]
          refine Or.inr ⟨fun l hl => ?_, _, rfl⟩
          have := Option.some.inj hl
          omega
        · rw [if_neg h]
          refine Or.inl ⟨k.toNat, congrArg some ?_, rfl⟩
          exact (Int.toNat_of_nonneg (by omega)).symm

/-- The length that is asked for is found. -/
theorem extent_of_counts {s : Fin n} {values : List (Value n)} {x : Extent} {k : Nat}
    (h : x.Counts (G s) values k) (field : String) (e : Encoder) :
    extent G s values field x e = .ok k e := by
  obtain ⟨l, hl, hx⟩ | ⟨hno, -⟩ := extent_eq_or_error (G := G) s values field x e
  · rw [hx, hl.unique h]
  · exact absurd h (hno k)

end Write

namespace Node

variable {G} {a : Node n} {e : Encoder}

/-- **A sound node leaves the bytes of its cells.** -/
theorem write_eq (he : e.Open) (ha : a.Sound G) : a.write G e = .ok () (e.put (wire a.cells)) := by
  obtain ⟨m, field, kind, v⟩ := a
  cases v with
  | scalar v =>
    cases kind with
    | primitive p =>
      obtain ⟨hk, hv⟩ := ha
      rw [write]
      dsimp only
      rw [if_pos hk]
      exact Write.scalar_eq he hv
    | _ => exact ha.elim
  | message u values =>
    cases kind with
    | message t =>
      have ht : G.compatible u t = true := ha
      rw [write]
      dsimp only
      rw [if_pos ht]
      exact congrArg (Result.ok ()) e.put_nil.symm
    | _ => exact ha.elim
  | array items =>
    cases kind with
    | array element x =>
      rw [write]
      dsimp only
      rw [bind_ok (Write.extent_of_counts ha field e), if_neg (fun h => h rfl)]
      exact congrArg (Result.ok ()) e.put_nil.symm
    | _ => exact ha.elim

/-- **Any other node stops the encoder and leaves nothing.** -/
theorem write_error (ha : ¬ a.Sound G) : ∃ err, a.write G e = .error err e := by
  obtain ⟨m, field, kind, v⟩ := a
  cases v with
  | scalar v =>
    cases kind with
    | primitive p =>
      rw [write]
      dsimp only
      by_cases hk : v.kind = p
      · rw [if_pos hk]
        exact Write.scalar_error fun hv => ha ⟨hk, hv⟩
      · rw [if_neg hk]
        exact ⟨_, rfl⟩
    | _ => exact ⟨_, rfl⟩
  | message u values =>
    cases kind with
    | message t =>
      have ht : ¬ G.compatible u t = true := ha
      rw [write]
      dsimp only
      rw [if_neg ht]
      exact ⟨_, rfl⟩
    | _ => exact ⟨_, rfl⟩
  | array items =>
    cases kind with
    | array element x =>
      rw [write]
      dsimp only
      obtain ⟨k, hk, hx⟩ | ⟨-, err, hx⟩ :=
        Write.extent_eq_or_error (G := G) m.schema m.values field x e
      · have hl : items.length ≠ k := by
          rintro rfl
          exact ha hk
        rw [bind_ok hx, if_pos hl]
        exact ⟨_, rfl⟩
      · exact ⟨err, bind_error hx⟩
    | _ => exact ⟨_, rfl⟩

end Node

/-! ## Rows of nodes -/

namespace Write

variable {G} {e : Encoder}

/-- Sound nodes leave the bytes of their cells, one after the other. -/
theorem forM_eq (he : e.Open) {as : List (Node n)} (has : ∀ a ∈ as, a.Sound G) :
    forM as (Node.write G) e = .ok () (e.put (wire (as.flatMap Node.cells))) := by
  induction as generalizing e with
  | nil => exact congrArg (Result.ok ()) e.put_nil.symm
  | cons a as ih =>
    rw [List.forall_mem_cons] at has
    rw [List.forM_cons, bind_ok (Node.write_eq he has.1), ih (he.put _) has.2, Encoder.put_put,
      List.flatMap_cons, wire_append]

/-- A row with a node that is not sound is refused. -/
theorem forM_error (he : e.Open) {as : List (Node n)} (has : ¬ ∀ a ∈ as, a.Sound G) :
    ∃ err e', forM as (Node.write G) e = .error err e' := by
  induction as generalizing e with
  | nil => exact absurd (List.forall_mem_nil _) has
  | cons a as ih =>
    rw [List.forM_cons]
    by_cases ha : a.Sound G
    · rw [bind_ok (Node.write_eq he ha)]
      exact ih (he.put _) fun h => has (List.forall_mem_cons.mpr ⟨ha, h⟩)
    · obtain ⟨err, h⟩ := Node.write_error (e := e) ha
      exact ⟨err, e, bind_error h⟩

end Write

/-! ## Whole messages -/

namespace Instance

variable {G} {m : Instance n}

theorem encodeFields_eq_forM : m.encodeFields G = forM (m.nodes G) (Node.write G) :=
  Write.fields_eq_forM G m (G m.schema).fields m.values

/-- A fingerprint is always written. -/
theorem fingerprint_new (fp : Fingerprint) :
    Write.fingerprint fp (.new .memory) = .ok () ((Encoder.new .memory).put fp.toBytes) :=
  Write.all_eq Encoder.open_new_memory _

theorem toBytes_eq (hm : m.WellFormed G) : m.toBytes G = .ok (wire (m.cells G)) := by
  have ho := Encoder.open_new_memory
  have h := Write.forM_eq (ho.put (G.fingerprint m.schema).toBytes) hm
  rw [← encodeFields_eq_forM, Encoder.put_put] at h
  have henc : m.encode G (.new .memory) =
      .ok () ((Encoder.new .memory).put (wire (m.cells G))) := by
    rw [encode, bind_ok (fingerprint_new _), bind_ok h, Write.flush_eq (ho.put _), cells,
      wire_append, wire_contents]
  rw [toBytes, Write.toBytes, Write.into, henc]
  simp [Encoder.put, Encoder.new, Sink.memory]

/-- The error of a message is that of its nodes, behind the fingerprint. -/
theorem toBytes_eq_error {err : WireError} {e : Encoder}
    (h : forM (m.nodes G) (Node.write G)
      ((Encoder.new .memory).put (G.fingerprint m.schema).toBytes) = .error err e) :
    m.toBytes G = .error err := by
  rw [← encodeFields_eq_forM] at h
  rw [toBytes, Write.toBytes, Write.into, encode, bind_ok (fingerprint_new _), bind_error h]

/-- The messages that can be encoded, and their bytes. -/
theorem toBytes_eq_ok_iff {bs : Bytes} :
    m.toBytes G = .ok bs ↔ m.WellFormed G ∧ bs = wire (m.cells G) := by
  constructor
  · intro h
    by_cases hm : m.WellFormed G
    · rw [toBytes_eq hm] at h
      exact ⟨hm, (Except.ok.inj h).symm⟩
    · obtain ⟨err, e, he⟩ := Write.forM_error (Encoder.open_new_memory.put _) hm
      rw [toBytes_eq_error he] at h
      cases h
  · rintro ⟨hm, rfl⟩
    exact toBytes_eq hm

/-- **The messages that can be encoded are the well-formed ones.** -/
theorem exists_toBytes_iff_wellFormed (G : Catalog n) (m : Instance n) :
    (∃ bs, m.toBytes G = .ok bs) ↔ m.WellFormed G := by
  constructor
  · rintro ⟨bs, h⟩
    exact (toBytes_eq_ok_iff.mp h).1
  · intro h
    exact ⟨_, toBytes_eq h⟩

end Instance

end MessageWire
