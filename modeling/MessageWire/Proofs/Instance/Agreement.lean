import MessageWire.Proofs.Instance.Decode
import MessageWire.Proofs.Instance.RoundTrip
import MessageWire.Proofs.Schema.Declared
import MessageWire.Proofs.Wire.PrefixFree

/-!
# Equal messages and equal bytes

What a message puts on the wire are its scalars in order, so messages that agree have the same
bytes. Of messages that are bound to one schema, no other has bytes that begin with those of one.

* `Value.leaves`, `Value.cells_eq_leaves`, `Value.leaves_eq_of_agrees`: the scalars of a value;
* `prefixFree_kind`, `Completes`, `prefixFree_fields`, **`prefixFree_message`**: values of a kind,
  the fields that are left, and messages of a schema;
* `Node.within_unlimited`: lengths that can be written are within the greatest limits;
* **`Instance.agrees_and_bytes`**: equality and the wire.
-/

namespace MessageWire

variable {n : Nat} {G : Catalog n}

/-! ## Leaves -/

namespace Value

mutual

/-- The wire form of the scalars that a value consists of, whatever its kind. -/
def leaves : Value n → List Cell
  | .scalar w => w.cells
  | .array items => leavesAll items
  | .message _ values => leavesAll values

/-- The wire form of the scalars of some values. -/
def leavesAll : List (Value n) → List Cell
  | [] => []
  | v :: vs => leaves v ++ leavesAll vs

end

mutual

/-- **A value that can be written** puts its scalars on the wire. -/
theorem cells_eq_leaves {m : Instance n} {field : String} {kind : Kind n} {v : Value n}
    (h : ∀ a ∈ nodes G m field kind v, a.Sound G ∧ a.Complete G) :
    (nodes G m field kind v).flatMap Node.cells = v.leaves := by
  have hself := (h _ (self_mem_nodes G m field kind v)).1
  cases v with
  | scalar w => cases kind <;> simp [nodes, Node.cells, leaves]
  | array items =>
    cases kind with
    | array element x =>
      rw [nodes, List.forall_mem_cons] at h
      rw [nodes, List.flatMap_cons, cellsAll_eq_leavesAll h.2]
      rfl
    | _ => exact hself.elim
  | message u values =>
    cases kind with
    | message t =>
      rw [nodes, List.forall_mem_cons] at h
      rw [nodes, List.flatMap_cons, cellsFields_eq_leavesAll h.1.2.symm h.2]
      rfl
    | _ => exact hself.elim

theorem cellsAll_eq_leavesAll {m : Instance n} {field : String} {kind : Kind n}
    {vs : List (Value n)} (h : ∀ a ∈ nodesAll G m field kind vs, a.Sound G ∧ a.Complete G) :
    (nodesAll G m field kind vs).flatMap Node.cells = leavesAll vs := by
  cases vs with
  | nil => rfl
  | cons v vs =>
    rw [nodesAll, List.forall_mem_append] at h
    rw [nodesAll, List.flatMap_append, cells_eq_leaves h.1, cellsAll_eq_leavesAll h.2, leavesAll]

theorem cellsFields_eq_leavesAll {m : Instance n} {fs : List (Field n)} {vs : List (Value n)}
    (hl : fs.length = vs.length) (h : ∀ a ∈ nodesFields G m fs vs, a.Sound G ∧ a.Complete G) :
    (nodesFields G m fs vs).flatMap Node.cells = leavesAll vs := by
  cases vs with
  | nil => cases fs <;> rfl
  | cons v vs =>
    cases fs with
    | nil => cases hl
    | cons f fs =>
      rw [nodesFields, List.forall_mem_append] at h
      rw [nodesFields, List.flatMap_append, cells_eq_leaves h.1,
        cellsFields_eq_leavesAll (Nat.succ.inj hl) h.2, leavesAll]

end

mutual

/-- Values that agree have the same leaves. -/
theorem leaves_eq_of_agrees {v w : Value n} (h : v.agrees G w = true) : v.leaves = w.leaves := by
  cases v with
  | scalar v =>
    cases w with
    | scalar w => rw [beq_iff_eq.mp h]
    | _ => cases h
  | array vs =>
    cases w with
    | array ws => exact leavesAll_eq_of_agreesAll h
    | _ => cases h
  | message s vs =>
    cases w with
    | message t ws => exact leavesAll_eq_of_agreesAll (Bool.and_eq_true_iff.mp h).2
    | _ => cases h

theorem leavesAll_eq_of_agreesAll {vs ws : List (Value n)} (h : agreesAll G vs ws = true) :
    leavesAll vs = leavesAll ws := by
  cases vs with
  | nil =>
    cases ws with
    | nil => rfl
    | cons w ws => cases h
  | cons v vs =>
    cases ws with
    | nil => cases h
    | cons w ws =>
      obtain ⟨hv, hvs⟩ := Bool.and_eq_true_iff.mp h
      rw [leavesAll, leavesAll, leaves_eq_of_agrees hv, leavesAll_eq_of_agreesAll hvs]

end

end Value

/-- The wire form of a whole message: the fingerprint of its schema, and its scalars. -/
theorem Instance.cells_eq_leaves {m : Instance n} (hw : m.WellFormed G) (hc : m.Complete G) :
    m.cells G = Cell.contents (G.fingerprint m.schema).toBytes ++ Value.leavesAll m.values :=
  congrArg (_ ++ ·) (Value.cellsFields_eq_leavesAll hc.1.symm fun a h => ⟨hw a h, hc.2 a h⟩)

/-! ## Values of a kind -/

section Kinds

variable {s : Fin n} {done : List (Value n)} {room : Nat} {L : Limits}

/-- **Values of a kind**, given the messages inside, in a message of which `done` comes before. -/
theorem prefixFree_kind {field : String}
    (hn : ∀ t, PrefixFree (Value.Decodable G ⟨s, done⟩ field (.message t) L room)
      (Value.cells G ⟨s, done⟩ field (.message t))) (kind : Kind n) :
    PrefixFree (Value.Decodable G ⟨s, done⟩ field kind L room)
      (Value.cells G ⟨s, done⟩ field kind) := by
  induction kind with
  | primitive p =>
    exact (prefixFree_scalar p L).map (fun v hv => Value.decodable_primitive_iff.mp hv)
      fun w => Value.cells_scalar p w
  | message t => exact hn t
  | array element x ih =>
    intro v w us vs hv hw e
    obtain ⟨items, ⟨⟨hk, -⟩, hitems⟩, rfl⟩ := Value.decodable_array_iff.mp hv
    obtain ⟨items', ⟨⟨hk', -⟩, hitems'⟩, rfl⟩ := Value.decodable_array_iff.mp hw
    rw [Value.cells_array, Value.cells_array] at e
    -- both lengths are what the values in front ask for
    rw [ih.replicate items.length items items' us vs ⟨rfl, hitems⟩ ⟨hk'.unique hk, hitems'⟩ e]

variable (G s done L room) in
/-- The values `vs` of the fields `fs`, which come after the values `done`, can be decoded. -/
def Completes (fs : List (Field n)) (vs : List (Value n)) : Prop :=
  vs.length = fs.length ∧
    (∀ a ∈ Value.nodesFields G ⟨s, done ++ vs⟩ fs vs, a.Readable G L) ∧ Value.nestingAll vs ≤ room

variable (G s done) in
/-- The wire form of the values `vs` of the fields `fs`, which come after the values `done`. -/
def restCells (fs : List (Field n)) (vs : List (Value n)) : List Cell :=
  (Value.nodesFields G ⟨s, done ++ vs⟩ fs vs).flatMap Node.cells

variable {earlier fs : List (Field n)} {f : Field n} {vs : List (Value n)}

theorem restCells_cons (v : Value n) :
    restCells G s done (f :: fs) (v :: vs) =
      v.cells G ⟨s, done⟩ f.name f.kind ++ restCells G s (done ++ [v]) fs vs := by
  rw [restCells, restCells, Value.nodesFields, List.flatMap_append, ← List.append_cons]
  exact congrArg (· ++ _) (Value.cells_congr _ _ f.kind)

/-- **The next value** can be decoded by what comes before, and so can the others behind it. -/
theorem Completes.exists_cons (hS : (G s).fields = earlier ++ f :: fs)
    (hl : done.length = earlier.length) (h : Completes G s done room L (f :: fs) vs) :
    ∃ v rest, vs = v :: rest ∧ v.Decodable G ⟨s, done⟩ f.name f.kind L room ∧
      Completes G s (done ++ [v]) room L fs rest := by
  obtain ⟨hlen, hr, hnest⟩ := h
  obtain ⟨v, rest, rfl⟩ := List.exists_cons_of_length_eq_add_one hlen
  obtain ⟨-, -, -, hx, -⟩ := Declared.of_append (hS ▸ (G s).declared)
  rw [Value.nodesFields, List.forall_mem_append] at hr
  rw [Value.nestingAll, Nat.max_le] at hnest
  refine ⟨v, rest, rfl, (Value.decodable_append_iff G hS hl hx (v :: rest)).mp ⟨hr.1, hnest.1⟩,
    Nat.succ.inj hlen, ?_, hnest.2⟩
  rw [← List.append_cons]
  exact hr.2

/-- **The fields that are left**, when those in front of them are the same. -/
theorem prefixFree_fields (done : List (Value n))
    (hn : ∀ m field t, PrefixFree (Value.Decodable G m field (.message t) L room)
      (Value.cells G m field (.message t)))
    (hS : (G s).fields = earlier ++ fs) (hl : done.length = earlier.length) :
    PrefixFree (Completes G s done room L fs) (restCells G s done fs) := by
  induction fs generalizing earlier done with
  | nil =>
    intro as bs us vs ha hb _
    rw [List.length_eq_zero_iff.mp ha.1, List.length_eq_zero_iff.mp hb.1]
  | cons f fs ih =>
    intro as bs us vs ha hb e
    obtain ⟨v, as, rfl, hv, has⟩ := ha.exists_cons hS hl
    obtain ⟨w, bs, rfl, hw, hbs⟩ := hb.exists_cons hS hl
    rw [restCells_cons, restCells_cons, wire_append, wire_append, List.append_assoc,
      List.append_assoc] at e
    obtain ⟨rfl, htail⟩ :=
      (prefixFree_kind (fun t => hn ⟨s, done⟩ f.name t) f.kind).append_inj hv hw e
    have hS' : (G s).fields = earlier ++ [f] ++ fs := by rw [hS, List.append_cons]
    have hl' : (done ++ [v]).length = (earlier ++ [f]).length := by simp [hl]
    rw [ih (done ++ [v]) hS' hl' as bs us vs has hbs htail]

end Kinds

/-! ## Messages of a schema -/

/-- **The values of a message** of up to `room` levels. -/
theorem prefixFree_message (L : Limits) (room : Nat) (s : Fin n) :
    PrefixFree (fun vs => vs.length = (G s).fields.length ∧
        (∀ a ∈ Instance.nodes G ⟨s, vs⟩, a.Readable G L) ∧ Value.nestingAll vs < room)
      fun vs => (Instance.nodes G ⟨s, vs⟩).flatMap Node.cells := by
  -- the values inside have one level less
  induction room generalizing s with
  | zero => exact fun _ _ _ _ ha => absurd ha.2.2 (Nat.not_lt_zero _)
  | succ room ih =>
    have hn (m : Instance n) (field : String) (t : Fin n) :
        PrefixFree (Value.Decodable G m field (.message t) L room)
          (Value.cells G m field (.message t)) :=
      (ih t).map (fun v hv => Value.decodable_message_iff.mp hv) fun vs => Value.cells_message t vs
    intro as bs us vs ha hb e
    exact prefixFree_fields [] hn (List.nil_append _).symm rfl as bs us vs
      ⟨ha.1, ha.2.1, Nat.le_of_lt_succ ha.2.2⟩ ⟨hb.1, hb.2.1, Nat.le_of_lt_succ hb.2.2⟩ e

/-- An integer is less than `2 ^ 63`. -/
theorem Scalar.toInt?_lt {v : Scalar} {k : Int} (h : v.toInt? = some k) : k < 2 ^ 63 := by
  cases v with
  | int8 v | int16 v | int32 v | int64 v =>
    cases h
    have := v.toInt_lt
    omega
  | byte v =>
    cases h
    have := v.toNat_lt
    omega
  | _ => cases h

/-- **No text and no array that can be written** is too long for the greatest limits. -/
theorem Node.within_unlimited {a : Node n} (h : a.Sound G) : a.Within .unlimited := by
  obtain ⟨m, field, kind, v⟩ := a
  cases v with
  | scalar w =>
    cases kind with
    | primitive p => exact Scalar.Writable.within_unlimited h.2
    | _ => exact h.elim
  | message u values => cases kind <;> trivial
  | array items =>
    cases kind with
    | array element x =>
      cases x with
      | fixed size => trivial
      | counted c =>
        obtain ⟨v, -, hv⟩ := Option.bind_eq_some_iff.mp (show Schema.count? .. = _ from h)
        have hmax : Limits.unlimited.maxArrayLength.toNat = 2 ^ 64 - 1 := rfl
        change items.length ≤ Limits.unlimited.maxArrayLength.toNat
        cases v with
        | scalar w =>
          have := Scalar.toInt?_lt hv
          omega
        | _ => cases hv
    | _ => exact h.elim

/-! ## Agreement and bytes -/

namespace Instance

variable {a b : Instance n} {x y : Bytes}

/-- Messages that agree have the same bytes. -/
theorem bytes_eq_of_agrees (hac : a.Complete G) (hbc : b.Complete G) (ha : a.toBytes G = .ok x)
    (hb : b.toBytes G = .ok y) (h : a.agrees G b = true) : x = y := by
  obtain ⟨haw, rfl⟩ := toBytes_eq_ok_iff.mp ha
  obtain ⟨hbw, rfl⟩ := toBytes_eq_ok_iff.mp hb
  obtain ⟨hs, hv⟩ := Bool.and_eq_true_iff.mp h
  rw [cells_eq_leaves haw hac, cells_eq_leaves hbw hbc, (G.compatible_iff.mp hs).2,
    Value.leavesAll_eq_of_agreesAll hv]

/-- A message whose bytes begin with those of another one of its schema is that message. -/
theorem eq_of_prefix_bytes (hs : a.schema = b.schema) (hac : a.Complete G) (hbc : b.Complete G)
    (hab : a.Bound G) (hbb : b.Bound G) (ha : a.toBytes G = .ok x) (hb : b.toBytes G = .ok y)
    (h : x <+: y) : a = b := by
  obtain ⟨haw, rfl⟩ := toBytes_eq_ok_iff.mp ha
  obtain ⟨hbw, rfl⟩ := toBytes_eq_ok_iff.mp hb
  obtain ⟨s, as⟩ := a
  obtain ⟨_, bs⟩ := b
  cases hs
  obtain ⟨rest, hrest⟩ := h
  rw [cells, cells, wire_append, wire_append, List.append_assoc,
    List.append_cancel_left_eq] at hrest
  have hreadable {vs : List (Value n)} (hw : WellFormed G ⟨s, vs⟩) (hbound : Bound G ⟨s, vs⟩)
      (hc : Complete G ⟨s, vs⟩) : ∀ a ∈ nodes G ⟨s, vs⟩, a.Readable G .unlimited :=
    fun a ha => ⟨hw a ha, hbound a ha, hc.2 a ha, Node.within_unlimited (hw a ha)⟩
  have hroom := prefixFree_message (G := G) .unlimited
    (max (Value.nestingAll as) (Value.nestingAll bs) + 1) s as bs rest []
    ⟨hac.1, hreadable haw hab hac, by omega⟩ ⟨hbc.1, hreadable hbw hbb hbc, by omega⟩
    (by rw [hrest, List.append_nil])
  rw [hroom]

/-- **Equality agrees with the wire.** Messages that agree have the same bytes. If two messages are
bound to one schema, and what is inside them to the schemas that its kinds name, then they agree as
soon as the bytes of one are the beginning of those of the other. -/
theorem agrees_and_bytes (hac : a.Complete G) (hbc : b.Complete G) (ha : a.toBytes G = .ok x)
    (hb : b.toBytes G = .ok y) :
    (a.agrees G b = true → x = y) ∧
      (a.schema = b.schema → a.Bound G → b.Bound G → x <+: y → a.agrees G b = true) := by
  refine ⟨bytes_eq_of_agrees hac hbc ha hb, fun hs hab hbb h => ?_⟩
  rw [eq_of_prefix_bytes hs hac hbc hab hbb ha hb h]
  exact agrees_refl b

/-- Readings and their number, in two schemas that are the same but for their places. -/
def gauges : Catalog 2 := fun _ =>
  ⟨"Gauge", [⟨"count", .primitive .byte⟩,
    ⟨"readings", .array (.primitive .float64) (.counted "count")⟩], 0, [], by decide, by decide⟩

theorem compatible_gauges (s t : Fin 2) : gauges.compatible s t = true := by
  refine gauges.compatible_iff.mpr ⟨rfl, ?_⟩
  rw [Catalog.fingerprint, Catalog.fingerprint, Catalog.hashFrom, Catalog.hashFrom]
  rfl

/-- One reading that is no number. -/
def gauge (s : Fin 2) : Instance 2 :=
  ⟨s, [.scalar (.byte 1), .array [.scalar (.float64 ⟨0x7ff8000000000001⟩)]]⟩

theorem agrees_and_bytes_gauge :
    ((gauge 0).agrees gauges (gauge 1) = true ∧
        wire ((gauge 0).cells gauges) = wire ((gauge 1).cells gauges)) ∧
      (gauge 0).agrees gauges (gauge 0) = true := by
  have h : (gauge 0).agrees gauges (gauge 1) = true := by
    rw [agrees, gauge, gauge, compatible_gauges]
    rfl
  refine ⟨⟨h, (agrees_and_bytes (by decide) (by decide) (toBytes_eq (by decide))
    (toBytes_eq (by decide))).1 h⟩, ?_⟩
  exact (agrees_and_bytes (by decide) (by decide) (toBytes_eq (by decide))
    (toBytes_eq (by decide))).2 rfl (by decide) (by decide) List.prefix_rfl

end Instance

end MessageWire
