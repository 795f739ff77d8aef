import MessageWire.Instance.Decode
import MessageWire.Proofs.Value.Node
import MessageWire.Proofs.Wire.Read

/-!
# Decoding node by node

A decoder checks the length of an array against the fields that it has read so far, an encoder
against the whole message. Both find the same count, since it is that of an earlier field.

* `Node.Readable`, `Value.Decodable`: what a decoder asks of a node, and of a value;
* `Extent.counts_append_iff`: a count is known when it is needed;
* `reads_kind`, `reads_fields`, **`reads_message`**: the decoder, by recursion on kinds, on fields
  and on the levels that are left;
* **`Instance.run_decode_eq_ok_iff`**: the inputs that are decoded, and the messages that come out.
-/

namespace MessageWire

variable {n : Nat} (G : Catalog n)

/-- Compatible schemas are the same, or have the same name and fingerprint. -/
theorem Catalog.compatible_iff {s t : Fin n} :
    G.compatible s t = true ↔ (G s).name = (G t).name ∧ G.fingerprint s = G.fingerprint t := by
  simp only [compatible, Bool.or_eq_true, Bool.and_eq_true, beq_iff_eq, or_iff_right_iff_imp]
  rintro rfl
  exact ⟨rfl, rfl⟩

theorem Catalog.compatible_refl (s : Fin n) : G.compatible s s = true :=
  G.compatible_iff.mpr ⟨rfl, rfl⟩

/-! ## What can be decoded -/

/-- A node of a shape that can be written, of the very schema that its kind names, with all its
values, and within the limits. -/
def Node.Readable (limits : Limits) (a : Node n) : Prop :=
  a.Sound G ∧ a.Bound ∧ a.Complete G ∧ a.Within limits

namespace Value

/-- The wire form of a value. -/
def cells (m : Instance n) (field : String) (kind : Kind n) (v : Value n) : List Cell :=
  (v.nodes G m field kind).flatMap Node.cells

/-- A value whose nodes can be read, of no more than `room` levels. -/
def Decodable (m : Instance n) (field : String) (kind : Kind n) (limits : Limits) (room : Nat)
    (v : Value n) : Prop :=
  (∀ a ∈ v.nodes G m field kind, a.Readable G limits) ∧ v.nesting ≤ room

variable {G} {m : Instance n} {field : String} {limits : Limits} {room : Nat} {v : Value n}

theorem decodable_primitive_iff {p : Primitive} :
    v.Decodable G m field (.primitive p) limits room ↔
      ∃ w : Scalar, (w.kind = p ∧ w.Writable ∧ w.Within limits) ∧ v = .scalar w := by
  cases v with
  | scalar w =>
    simp [Decodable, nodes, Node.Readable, Node.Sound, Node.Bound, Node.Complete, Node.Within,
      nesting, and_assoc]
  | _ => simp [Decodable, nodes, Node.Readable, Node.Sound]

theorem decodable_message_iff {t : Fin n} :
    v.Decodable G m field (.message t) limits room ↔
      ∃ values, (values.length = (G t).fields.length ∧
        (∀ a ∈ Instance.nodes G ⟨t, values⟩, a.Readable G limits) ∧ nestingAll values < room) ∧
          v = .message t values := by
  cases v with
  | message u values =>
    rw [Decodable, nodes_message, List.forall_mem_cons, nesting]
    constructor
    · rintro ⟨⟨⟨-, rfl, hl, -⟩, hv⟩, hr⟩
      exact ⟨values, ⟨hl, hv, by omega⟩, rfl⟩
    · rintro ⟨values, ⟨hl, hv, hr⟩, ⟨⟩⟩
      exact ⟨⟨⟨G.compatible_refl t, rfl, hl, trivial⟩, hv⟩, by omega⟩
  | _ => simp [Decodable, nodes, Node.Readable, Node.Sound]

theorem decodable_array_iff {element : Kind n} {x : Extent} :
    v.Decodable G m field (.array element x) limits room ↔
      ∃ items, ((x.Counts (G m.schema) m.values items.length ∧ x.Within limits items.length) ∧
        ∀ w ∈ items, w.Decodable G m field element limits room) ∧ v = .array items := by
  cases v with
  | array items =>
    rw [Decodable, nodes_array, List.forall_mem_cons, nesting, nestingAll_le_iff]
    constructor
    · rintro ⟨⟨⟨hc, -, -, hl⟩, hv⟩, hr⟩
      refine ⟨items, ⟨⟨hc, hl⟩, fun w hw => ⟨fun a ha => ?_, hr w hw⟩⟩, rfl⟩
      exact hv a (List.mem_flatMap.mpr ⟨w, hw, ha⟩)
    · rintro ⟨items, ⟨⟨hc, hl⟩, hv⟩, ⟨⟩⟩
      refine ⟨⟨⟨hc, trivial, trivial, hl⟩, fun a ha => ?_⟩, fun w hw => (hv w hw).2⟩
      obtain ⟨w, hw, ha⟩ := List.mem_flatMap.mp ha
      exact (hv w hw).1 a ha
  | _ => simp [Decodable, nodes, Node.Readable, Node.Sound]

/-- A value does not look at the message around it but for the counts of its own dimensions. -/
theorem decodable_congr {s : Fin n} {vs ws : List (Value n)} {kind : Kind n}
    (h : ∀ x ∈ kind.extents, ∀ k, x.Counts (G s) vs k ↔ x.Counts (G s) ws k) :
    v.Decodable G ⟨s, vs⟩ field kind limits room ↔
      v.Decodable G ⟨s, ws⟩ field kind limits room := by
  induction kind generalizing v with
  | primitive p => rw [decodable_primitive_iff, decodable_primitive_iff]
  | message t => rw [decodable_message_iff, decodable_message_iff]
  | array element x ih =>
    rw [Kind.extents, List.forall_mem_cons] at h
    rw [decodable_array_iff, decodable_array_iff]
    refine exists_congr fun items => and_congr_left fun _ => ?_
    rw [h.1 items.length]
    exact and_congr_right fun _ => forall₂_congr fun w _ => ih h.2

theorem cells_scalar (p : Primitive) (w : Scalar) :
    cells G m field (.primitive p) (.scalar w) = w.cells := by
  simp [cells, nodes, Node.cells]

theorem cells_message (t : Fin n) (values : List (Value n)) :
    cells G m field (.message t) (.message t values) =
      (Instance.nodes G ⟨t, values⟩).flatMap Node.cells := by
  rw [cells, nodes_message, List.flatMap_cons]
  rfl

theorem cells_array (element : Kind n) (x : Extent) (items : List (Value n)) :
    cells G m field (.array element x) (.array items) =
      items.flatMap (cells G m field element) := by
  rw [cells, nodes_array, List.flatMap_cons, List.flatMap_assoc]
  rfl

/-- The wire form of a value does not depend on where it stands. -/
theorem cells_congr (m' : Instance n) (field' : String) (kind : Kind n) :
    cells G m' field' kind v = cells G m field kind v := by
  induction kind generalizing v with
  | primitive p => cases v <;> simp [cells, nodes, Node.cells]
  | message t =>
    cases v with
    | message u values =>
      rw [cells, cells, nodes_message, nodes_message, List.flatMap_cons, List.flatMap_cons]
      rfl
    | _ => simp [cells, nodes, Node.cells]
  | array element x ih =>
    cases v with
    | array items =>
      rw [cells_array, cells_array]
      exact List.flatMap_congr fun w _ => ih
    | _ => simp [cells, nodes, Node.cells]

end Value

/-! ## Counts of earlier fields -/

/-- A field that has been declared is found among the fields that have been read. -/
theorem Schema.index?_of_mem {S : Schema n} {earlier rest : List (Field n)}
    (hS : S.fields = earlier ++ rest) {f : Field n} (hf : f ∈ earlier) :
    ∃ i < earlier.length, S.index? f.name = some i := by
  cases hi : earlier.findIdx? (·.name == f.name) with
  | none =>
    rw [List.findIdx?_eq_none_iff] at hi
    simpa using hi f hf
  | some i =>
    refine ⟨i, (List.findIdx?_eq_some_iff_findIdx_eq.mp hi).1, ?_⟩
    rw [Schema.index?, hS, List.findIdx?_append, hi]
    rfl

/-- **A count is known when it is needed:** the fields to come do not change it. -/
theorem Extent.counts_append_iff {S : Schema n} {earlier rest : List (Field n)}
    (hS : S.fields = earlier ++ rest) {vs ws : List (Value n)} (hl : vs.length = earlier.length)
    {x : Extent} (hx : x.Resolved earlier) (k : Nat) :
    x.Counts S (vs ++ ws) k ↔ x.Counts S vs k := by
  cases x with
  | fixed size => rfl
  | counted c =>
    obtain ⟨f, hf, rfl, -⟩ := hx
    obtain ⟨i, hi, e⟩ := Schema.index?_of_mem hS hf
    rw [Counts, Counts, Schema.count?, Schema.count?, e, Option.bind_some, Option.bind_some,
      List.getElem?_append_left (by omega)]

/-- **A value that is checked against the fields in front of it** is checked against all. -/
theorem Value.decodable_append_iff {s : Fin n} {earlier rest : List (Field n)}
    (hS : (G s).fields = earlier ++ rest) {vs : List (Value n)} (hl : vs.length = earlier.length)
    {kind : Kind n} (hx : ∀ x ∈ kind.extents, x.Resolved earlier) (ws : List (Value n))
    {field : String} {limits : Limits} {room : Nat} {v : Value n} :
    v.Decodable G ⟨s, vs ++ ws⟩ field kind limits room ↔
      v.Decodable G ⟨s, vs⟩ field kind limits room :=
  decodable_congr fun x h => Extent.counts_append_iff hS hl (hx x h)

/-! ## The decoder -/

open Value

section Kinds

variable {G} {s : Fin n} {done : List (Value n × Nat)} {nested : Fin n → Read (Value n)}
  {room : Nat}

/-- The decoder looks a count up as the encoder does, and where its field began besides. -/
theorem count?_map (S : Schema n) (done : List (Value n × Nat)) (c : String) :
    S.count? (done.map (·.1)) c = (Read.count? S done c).map (·.1) := by
  rw [Schema.count?, Read.count?]
  cases S.index? c with
  | none => rfl
  | some i =>
    rw [Option.bind_some, List.getElem?_map]
    cases hd : done[i]? with
    | none => simp [hd]
    | some p => cases hk : p.1.toInt? <;> simp [hd, hk]

theorem reads_counted (S : Schema n) (c : String) :
    Reads (Read.counted S done c) (fun _ => []) fun L _ k =>
      (Extent.counted c).Counts S (done.map (·.1)) k ∧ (Extent.counted c).Within L k := by
  have hc := count?_map S done c
  rw [Read.counted]
  cases hr : Read.count? S done c with
  | none =>
    rw [hr] at hc
    refine Reads.throw _ fun L r k h => ?_
    exact Option.some_ne_none _ (h.1.symm.trans hc)
  | some p =>
    rw [hr] at hc
    refine (reads_countAt p.1 p.2).congr (fun _ _ _ _ => rfl) fun L r k => ?_
    change S.count? _ c = some (k : Int) ∧ k ≤ _ ↔ _
    rw [hc, Option.map_some, Option.some.injEq, eq_comm]

theorem reads_fixed_length (S : Schema n) (vs : List (Value n)) (size : UInt64) :
    Reads (pure size.toNat) (fun _ => []) fun L _ k =>
      (Extent.fixed size).Counts S vs k ∧ (Extent.fixed size).Within L k :=
  (Reads.pure size.toNat).congr (fun _ _ _ _ => rfl) fun _ _ _ => and_iff_left trivial

/-- An array, when its length has been found. -/
theorem reads_array {m : Instance n} {field : String} {element : Kind n} {x : Extent}
    {length : Read Nat} {item : Read (Value n)}
    (hx : Reads length (fun _ => []) fun L _ k =>
      x.Counts (G m.schema) m.values k ∧ x.Within L k)
    (hi : Reads item (cells G m field element) fun L r =>
      Decodable G m field element L (min r room)) :
    Reads (do return .array (← Read.times (← length) item))
      (cells G m field (.array element x)) fun L r =>
        Decodable G m field (.array element x) L (min r room) := by
  have hn (k : Nat) : Reads (do return .array (← Read.times k item))
      (cells G m field (.array element x)) fun L r v => ∃ items,
        (items.length = k ∧ ∀ w ∈ items, w.Decodable G m field element L (min r room)) ∧
          v = .array items :=
    (hi.times k).map Value.array (fun L r items _ => cells_array element x items)
      fun _ _ _ => Iff.rfl
  refine hx.bind hn (fun _ _ _ _ _ _ => rfl) fun L r v => ?_
  rw [decodable_array_iff]
  constructor
  · rintro ⟨items, ⟨hc, hi⟩, rfl⟩
    exact ⟨items.length, hc, items, ⟨rfl, hi⟩, rfl⟩
  · rintro ⟨_, hc, items, ⟨rfl, hi⟩, rfl⟩
    exact ⟨items, ⟨hc, hi⟩, rfl⟩

/-- **A value of a kind**, given the nested messages. -/
theorem reads_kind {field : String}
    (hn : ∀ t, Reads (nested t) (cells G ⟨s, done.map (·.1)⟩ field (.message t)) fun L r =>
      Decodable G ⟨s, done.map (·.1)⟩ field (.message t) L (min r room)) (kind : Kind n) :
    Reads (Read.kind nested (G s) done kind) (cells G ⟨s, done.map (·.1)⟩ field kind) fun L r =>
      Decodable G ⟨s, done.map (·.1)⟩ field kind L (min r room) := by
  induction kind with
  | primitive p =>
    refine (reads_scalar p).map Value.scalar (fun L r w _ => cells_scalar p w) fun L r v => ?_
    exact decodable_primitive_iff
  | message t => exact hn t
  | array element x ih =>
    cases x with
    | fixed size => exact reads_array (reads_fixed_length (G s) _ size) ih
    | counted c => exact reads_array (reads_counted (G s) c) ih

/-- The fields of a message, when those in front of them have been read. -/
theorem reads_fields
    (hn : ∀ m field t, Reads (nested t) (cells G m field (.message t)) fun L r =>
      Decodable G m field (.message t) L (min r room)) {earlier fs : List (Field n)}
    (hS : (G s).fields = earlier ++ fs) (hd : Declared earlier fs)
    (hl : done.length = earlier.length) :
    Reads (do return (← Read.fields nested (G s) done fs).map (·.1))
      (fun vs => (nodesFields G ⟨s, vs⟩ fs (vs.drop done.length)).flatMap Node.cells) fun L r vs =>
        ∃ ws, vs = done.map (·.1) ++ ws ∧ ws.length = fs.length ∧
          (∀ a ∈ nodesFields G ⟨s, vs⟩ fs ws, a.Readable G L) ∧ nestingAll ws ≤ min r room := by
  induction fs generalizing earlier done with
  | nil =>
    refine (Reads.pure (done.map (·.1))).congr (fun L r vs _ => ?_) fun L r vs => ?_
    · rw [nodesFields_eq_flatMap, List.zip_nil_left]
      rfl
    · constructor
      · rintro ⟨ws, rfl, hw, -⟩
        rw [List.length_eq_zero_iff.mp hw, List.append_nil]
      · rintro rfl
        exact ⟨[], (List.append_nil _).symm, rfl, List.forall_mem_nil _, Nat.zero_le _⟩
  | cons f fs ih =>
    obtain ⟨-, -, hx, hd⟩ := hd
    have e : (do return (← Read.fields nested (G s) done (f :: fs)).map (·.1) : Read _) = do
        let offset ← Read.position
        let v ← Read.kind nested (G s) done f.kind
        return (← Read.fields nested (G s) (done ++ [(v, offset)]) fs).map (·.1) := by
      simp only [Read.fields, bind_assoc]
    rw [e]
    refine Reads.position fun offset => ?_
    have hv := reads_kind (fun t => hn ⟨s, done.map (·.1)⟩ f.name t) f.kind
    have hrest (v : Value n) :
        Reads (do return (← Read.fields nested (G s) (done ++ [(v, offset)]) fs).map (·.1)) _ _ :=
      ih (by simp [hS]) hd (by simp [hl])
    have hlen : (done.map (·.1)).length = earlier.length := by rw [List.length_map, hl]
    have happ (v : Value n) (ws : List (Value n)) :
        (done ++ [(v, offset)]).map (·.1) ++ ws = done.map (·.1) ++ v :: ws := by simp
    have hdrop (v : Value n) (ws : List (Value n)) :
        (done.map (·.1) ++ v :: ws).drop done.length = v :: ws := List.drop_left' (by simp)
    have hdrop' (v : Value n) (ws : List (Value n)) :
        (done.map (·.1) ++ v :: ws).drop (done ++ [(v, offset)]).length = ws := by
      rw [← happ, List.drop_left' (by simp)]
    refine hv.bind hrest ?_ ?_
    · rintro L r v vs - ⟨ws, rfl, -⟩
      rw [happ, hdrop, hdrop', nodesFields, List.flatMap_append]
      exact congrArg (· ++ _) (cells_congr _ _ f.kind)
    · intro L r vs
      constructor
      · rintro ⟨ws, rfl, hw, ha, hr⟩
        obtain ⟨v, ws, rfl⟩ := List.exists_cons_of_length_eq_add_one hw
        rw [nodesFields, List.forall_mem_append] at ha
        rw [nestingAll, Nat.max_le] at hr
        have hv := (decodable_append_iff G hS hlen hx (v :: ws)).mp ⟨ha.1, hr.1⟩
        exact ⟨v, hv, ws, (happ v ws).symm, by simpa using hw, ha.2, hr.2⟩
      · rintro ⟨v, hv, ws, rfl, hw, ha, hr⟩
        rw [happ] at ha ⊢
        rw [← decodable_append_iff G hS hlen hx (v :: ws)] at hv
        refine ⟨v :: ws, rfl, by simpa using hw, ?_, ?_⟩
        · rw [nodesFields, List.forall_mem_append]
          exact ⟨hv.1, ha⟩
        · rw [nestingAll, Nat.max_le]
          exact ⟨hv.2, hr⟩

end Kinds

/-! ## Whole messages -/

/-- A message inside another, one level further in. -/
theorem reads_nested {room : Nat} {t : Fin n}
    (ht : Reads (Read.message G room t)
      (fun vs => (Instance.nodes G ⟨t, vs⟩).flatMap Node.cells) fun L r vs =>
        vs.length = (G t).fields.length ∧ (∀ a ∈ Instance.nodes G ⟨t, vs⟩, a.Readable G L) ∧
          nestingAll vs ≤ r ∧ nestingAll vs < room) (m : Instance n) (field : String) :
    Reads (Read.level (return Value.message t (← Read.message G room t)))
      (cells G m field (.message t)) fun L r =>
        Decodable G m field (.message t) L (min r room) := by
  have hv : Reads (do return Value.message t (← Read.message G room t))
      (cells G m field (.message t)) _ :=
    ht.map (Value.message t) (fun L r vs _ => cells_message t vs) fun _ _ _ => Iff.rfl
  refine hv.level.congr (fun _ _ _ _ => rfl) fun L r v => ?_
  rw [decodable_message_iff]
  constructor
  · rintro ⟨vs, ⟨hl, hv, hr⟩, rfl⟩
    exact ⟨by omega, vs, ⟨hl, hv, by omega, by omega⟩, rfl⟩
  · rintro ⟨h0, vs, ⟨hl, hv, hr, hroom⟩, rfl⟩
    exact ⟨vs, ⟨hl, hv, by omega⟩, rfl⟩

/-- **The values of a message**, by the levels that are left. -/
theorem reads_message (room : Nat) (s : Fin n) :
    Reads (Read.message G room s)
      (fun vs => (Instance.nodes G ⟨s, vs⟩).flatMap Node.cells) fun L r vs =>
        vs.length = (G s).fields.length ∧ (∀ a ∈ Instance.nodes G ⟨s, vs⟩, a.Readable G L) ∧
          nestingAll vs ≤ r ∧ nestingAll vs < room := by
  -- a level inside takes one from the room, and one from the levels that the limits leave
  induction room generalizing s with
  | zero =>
    exact Reads.limits fun d => Reads.throw _ fun L r vs h => Nat.not_lt_zero _ h.2.2.2
  | succ room ih =>
    have hn (m : Instance n) (field : String) (t : Fin n) := reads_nested G (ih t) m field
    refine (reads_fields hn (List.nil_append _).symm (G s).declared rfl).congr
      (fun _ _ _ _ => rfl) fun L r vs => ?_
    constructor
    · rintro ⟨hl, hv, hr, hroom⟩
      exact ⟨vs, rfl, hl, hv, by omega⟩
    · rintro ⟨vs, rfl, hl, hv, hr⟩
      exact ⟨hl, hv, by omega, by omega⟩

namespace Instance

variable {G} {s : Fin n}

theorem reads_decode :
    Reads (decode G s) (fun m => m.cells G) fun L r m => m.schema = s ∧ m.WellFormed G ∧ m.Bound G ∧
      m.Complete G ∧ m.nesting ≤ r ∧ ∀ a ∈ m.nodes G, a.Within L := by
  have hm (room : Nat) : Reads (do return (⟨s, ← Read.message G room s⟩ : Instance n))
      (fun m => (m.nodes G).flatMap Node.cells) fun L r m => ∃ vs,
        (vs.length = (G s).fields.length ∧ (∀ a ∈ Instance.nodes G ⟨s, vs⟩, a.Readable G L) ∧
          nestingAll vs ≤ r ∧ nestingAll vs < room) ∧ m = ⟨s, vs⟩ :=
    (reads_message G room s).map (Instance.mk s) (fun _ _ _ _ => rfl) fun _ _ _ => Iff.rfl
  have hl : Reads (do let room ← Read.levels
                      Read.level (return (⟨s, ← Read.message G room s⟩ : Instance n)))
      (fun m => (m.nodes G).flatMap Node.cells) fun L r m => m.schema = s ∧
        m.values.length = (G s).fields.length ∧ (∀ a ∈ m.nodes G, a.Readable G L) ∧
          m.nesting ≤ r := by
    refine Reads.levels (fun room => (hm room).level) fun L r m => ?_
    constructor
    · rintro ⟨rfl, hl, ha, hr⟩
      unfold nesting at hr
      exact ⟨by omega, m.values, ⟨hl, ha, by omega, by omega⟩, rfl⟩
    · rintro ⟨h0, vs, ⟨hl, ha, hr, hroom⟩, rfl⟩
      exact ⟨rfl, hl, ha, show 1 + nestingAll vs ≤ r by omega⟩
  refine (reads_expect (G s).name (G.fingerprint s)).bind (fun _ => hl) ?_ ?_
  · rintro L r u m - ⟨rfl, -⟩
    rfl
  · intro L r m
    constructor
    · rintro ⟨rfl, hw, hb, ⟨hl, hc⟩, hr, hL⟩
      exact ⟨(), trivial, rfl, hl, fun a ha => ⟨hw a ha, hb a ha, hc a ha, hL a ha⟩, hr⟩
    · rintro ⟨-, -, rfl, hl, ha, hr⟩
      exact ⟨rfl, fun a h => (ha a h).1, fun a h => (ha a h).2.1, ⟨hl, fun a h => (ha a h).2.2.1⟩,
        hr, fun a h => (ha a h).2.2.2⟩

/-- **What is decoded:** the bytes that spell a message of the schema that can be written, is within
the limits, has all its values, and is bound to the schemas that its kinds name. What follows them
is left. -/
theorem run_decode_eq_ok_iff {limits : Limits} {bs : Bytes} {m : Instance n} {left : Source} :
    (decode G s).run (.memory bs) limits = (.ok m, left) ↔
      (m.schema = s ∧ m.WellFormed G ∧ m.Bound G ∧ m.Complete G ∧ m.Respects G limits) ∧
        ∃ used rest, bs = used ++ rest ∧ Spells (m.cells G) used ∧ left = .memory rest :=
  reads_decode.run_eq_ok_iff

/-- A schema of a truth value and a text. -/
def lamps : Catalog 1 := fun _ =>
  ⟨"Lamp", [⟨"on", .primitive .boolean⟩, ⟨"name", .primitive .text⟩], 0, [], by decide, by decide⟩

/-- A message of that schema. -/
def lamp : Instance 1 := ⟨0, [.scalar (.boolean true), .scalar (.text "x")]⟩

/-- Seven for true, and five at the end of the text. -/
theorem run_decode_lamp :
    (decode lamps 0).run
        (.memory ((lamps.fingerprint 0).toBytes ++ [7, 0, 0, 0, 2, 120, 5] ++ [255])) .standard =
      (.ok lamp, .memory [255]) := by
  refine run_decode_eq_ok_iff.mpr ⟨⟨rfl, by decide, by decide, by decide, by decide⟩,
    _, _, rfl, ?_, rfl⟩
  exact spells_append_iff.mpr ⟨_, _, rfl, spells_contents_iff.mpr rfl, by decide⟩

end Instance

end MessageWire
