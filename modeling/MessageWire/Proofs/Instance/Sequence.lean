import MessageWire.Proofs.Instance.Shaped
import MessageWire.Proofs.Instance.Counted

/-!
# Sequences and their counts

An array that is replaced takes the field that counts it with it, and leaves all else alone. If the
new elements can be written and nothing else is counted by that field, a message that could be
encoded still can be.

* `Instance.get?_put`, `Instance.get?_put_of_ne`: a value put in the place of a field;
* `Instance.SameApart`, `Instance.eq_of_get?`: messages compared field by field;
* `Change.Sequenced`, **`Change.setSequence_eq_ok_iff_sequenced`**: what a sequence leaves;
* `Value.Sound`, `Value.Sound.of_counts`, `Instance.wellFormed_iff`: what can be written, by fields;
* `Schema.CountsOnly`, `Change.Sequenced.wellFormed`: where a count may change;
* **`Change.setSequence_atomic`**: sequences that are refused, and those that are not.
-/

namespace MessageWire

variable {n : Nat} {G : Catalog n}

/-! ## Fields by name -/

/-- **A field is found in its place.** -/
theorem Schema.index?_of_getElem? {S : Schema n} {i : Nat} {f : Field n}
    (h : S.fields[i]? = some f) : S.index? f.name = some i := by
  obtain ⟨j, hj, hf⟩ := exists_index? (List.mem_of_getElem? h)
  have hnodup : S.fields.Nodup := (S.declared.nodup List.nodup_nil).of_map _
  have hi : i < S.fields.length := (List.getElem?_eq_some_iff.mp h).1
  rw [hj, (List.getElem?_inj hi hnodup).mp (h.trans hf.symm)]

/-- A name stands for one kind. -/
theorem Schema.kind_eq_of_mem {S : Schema n} {name : String} {k l : Kind n}
    (hk : ⟨name, k⟩ ∈ S.fields) (hl : ⟨name, l⟩ ∈ S.fields) : k = l :=
  (Field.mk.inj (List.inj_on_of_nodup_map (S.declared.nodup List.nodup_nil) hk hl rfl)).2

namespace Instance

variable {m m' : Instance n} {i : Nat} {kind : Kind n} {name other : String} {v : Value n}

theorem field_eq_ok_iff_getElem? :
    m.field G name = .ok (i, kind) ↔ (G m.schema).fields[i]? = some ⟨name, kind⟩ := by
  rw [field_eq_ok_iff]
  constructor
  · rintro ⟨f, hi, hf, rfl⟩
    obtain ⟨hl, hn, -⟩ := List.findIdx?_eq_some_iff_getElem.mp hi
    have hname : f.name = name := by
      rw [← Option.some.inj ((List.getElem?_eq_getElem hl).symm.trans hf)]
      exact beq_iff_eq.mp hn
    rw [hf, ← hname]
  · intro hf
    exact ⟨_, Schema.index?_of_getElem? hf, hf, rfl⟩

/-- A field is read in its place. -/
theorem get?_of_getElem? {f : Field n} (hf : (G m.schema).fields[i]? = some f) :
    m.get? G f.name = m.values[i]? := by
  rw [get?, Schema.index?_of_getElem? hf, Option.bind_some]

/-- A field holds what has been put there. -/
theorem get?_put (hf : (G m.schema).fields[i]? = some ⟨name, kind⟩)
    (hm : m.values.length = (G m.schema).fields.length) :
    get? G { m with values := m.values.set i v } name = some v := by
  have hi : i < m.values.length := hm ▸ (List.getElem?_eq_some_iff.mp hf).1
  rw [get?_of_getElem? (m := { m with values := m.values.set i v }) hf, List.getElem?_set_self hi]

/-- The other fields hold what they held. -/
theorem get?_put_of_ne (hf : (G m.schema).fields[i]? = some ⟨name, kind⟩) (hne : other ≠ name) :
    get? G { m with values := m.values.set i v } other = m.get? G other := by
  rw [get?, get?]
  dsimp only
  cases hj : (G m.schema).index? other with
  | none => rfl
  | some j =>
    obtain ⟨hl, hn, -⟩ := List.findIdx?_eq_some_iff_getElem.mp hj
    have hij : i ≠ j := by
      rintro rfl
      rw [List.getElem?_eq_getElem hl] at hf
      rw [Option.some.inj hf] at hn
      exact hne (beq_iff_eq.mp hn).symm
    rw [Option.bind_some, Option.bind_some, List.getElem?_set_ne hij]

/-- Messages of one schema, with as many values, that hold the same in every field that is not
called by one of `names`. -/
structure SameApart (G : Catalog n) (names : List String) (m m' : Instance n) : Prop where
  schema : m'.schema = m.schema
  length : m'.values.length = m.values.length
  get? : ∀ other ∉ names, m'.get? G other = m.get? G other

theorem sameApart_put (hf : (G m.schema).fields[i]? = some ⟨name, kind⟩) (v : Value n) :
    SameApart G [name] m { m with values := m.values.set i v } :=
  ⟨rfl, List.length_set .., fun _ h => get?_put_of_ne hf fun e => h (List.mem_singleton.mpr e)⟩

theorem SameApart.trans {names names' : List String} {m₁ : Instance n}
    (h : SameApart G names m m₁) (h' : SameApart G names' m₁ m') :
    SameApart G (names ++ names') m m' where
  schema := h'.schema.trans h.schema
  length := h'.length.trans h.length
  get? other ho := by
    rw [List.mem_append, not_or] at ho
    exact (h'.get? other ho.2).trans (h.get? other ho.1)

/-- A message is given by its fields. -/
theorem eq_of_get? (hs : m'.schema = m.schema)
    (hl : m'.values.length = m.values.length)
    (hm : m.values.length = (G m.schema).fields.length)
    (h : ∀ f ∈ (G m.schema).fields, m'.get? G f.name = m.get? G f.name) : m' = m := by
  obtain ⟨s, vs⟩ := m
  obtain ⟨_, ws⟩ := m'
  cases hs
  congr 1
  refine List.ext_getElem? fun i => ?_
  by_cases hi : i < (G s).fields.length
  · have hf := List.getElem?_eq_getElem hi
    have := h _ (List.getElem_mem hi)
    rwa [get?_of_getElem? (m := ⟨s, ws⟩) hf, get?_of_getElem? (m := ⟨s, vs⟩) hf] at this
  · have hv : vs.length ≤ i := hm.trans_le (Nat.le_of_not_lt hi)
    rw [List.getElem?_eq_none hv, List.getElem?_eq_none (hl.trans_le hv)]

/-- Messages that come of one, and hold the same where they do not hold what it did. -/
theorem SameApart.eq {names : List String} {m'' : Instance n}
    (hm : m.values.length = (G m.schema).fields.length) (h : SameApart G names m m')
    (h' : SameApart G names m m'') (hn : ∀ name ∈ names, m'.get? G name = m''.get? G name) :
    m' = m'' := by
  refine eq_of_get? (G := G) (h.schema.trans h'.schema.symm) (h.length.trans h'.length.symm) ?_
    fun f _ => ?_
  · rw [h'.schema, h'.length, hm]
  · by_cases hf : f.name ∈ names
    · exact hn _ hf
    · exact (h.get? _ hf).trans (h'.get? _ hf).symm

end Instance

/-! ## What a sequence leaves -/

namespace Change

variable {m m' : Instance n} {name : String} {items : List (Value n)}

/-- **The message after a sequence,** by the names of its fields: the array holds the elements, and
the field that counts them holds their number as an integer of its own kind. The elements conform,
and they are as many as a fixed length asks for. -/
def Sequenced (G : Catalog n) (name : String) (items : List (Value n)) (m m' : Instance n) : Prop :=
  ∃ element x, ⟨name, .array element x⟩ ∈ (G m.schema).fields ∧
    (∀ v ∈ items, v.conforms G element = true) ∧ m'.get? G name = some (.array items) ∧
    match x with
    | .fixed size => items.length = size.toNat ∧ m.SameApart G [name] m'
    | .counted c => m.SameApart G [name, c] m' ∧
      ∃ p count, ⟨c, .primitive p⟩ ∈ (G m.schema).fields ∧ m'.get? G c = some (.scalar count) ∧
        count.kind = p ∧ count.toInt? = some (items.length : Int)

variable (hm : m.values.length = (G m.schema).fields.length)
include hm

theorem sequenced_of_replaced (h : Replaced G name items m m') : Sequenced G name items m m' := by
  obtain ⟨i, element, x, hf, hi, hx⟩ := h
  have hf := Instance.field_eq_ok_iff_getElem?.mp hf
  obtain ⟨hsize, hi⟩ := Value.conforms_array_iff.mp hi
  refine ⟨element, x, List.mem_of_getElem? hf, hi, ?_⟩
  cases x with
  | fixed size =>
    obtain rfl := hx
    exact ⟨Instance.get?_put hf hm, hsize size rfl, Instance.sameApart_put hf _⟩
  | counted c =>
    obtain ⟨j, p, count, hc, hk, rfl⟩ := hx
    have hc := Instance.field_eq_ok_iff_getElem?.mp hc
    have hne : name ≠ c := by
      rintro rfl
      cases Schema.kind_eq_of_mem (List.mem_of_getElem? hf) (List.mem_of_getElem? hc)
    have harray := Instance.sameApart_put hf (.array items)
    -- the count is put into the message that holds the array already
    have hcount := Instance.sameApart_put
      (m := { m with values := m.values.set i (.array items) }) hc (.scalar count)
    exact ⟨(hcount.get? name (mt List.mem_singleton.mp hne)).trans (Instance.get?_put hf hm),
      harray.trans hcount, p, count, List.mem_of_getElem? hc,
      Instance.get?_put (m := { m with values := m.values.set i (.array items) }) hc
        (harray.length.trans hm), Scalar.ofCount?_eq_some_iff.mp hk⟩

/-- A sequence leaves one message. -/
theorem Sequenced.unique {m'' : Instance n} (h : Sequenced G name items m m')
    (h' : Sequenced G name items m m'') : m' = m'' := by
  obtain ⟨element, x, hf, -, hname, hx⟩ := h
  obtain ⟨element', x', hf', -, hname', hx'⟩ := h'
  cases Schema.kind_eq_of_mem hf hf'
  have hname := hname.trans hname'.symm
  cases x with
  | fixed size => exact hx.2.eq hm hx'.2 (List.forall_mem_singleton.mpr hname)
  | counted c =>
    obtain ⟨hsame, p, count, hc, hcount, hk⟩ := hx
    obtain ⟨hsame', p', count', hc', hcount', hk'⟩ := hx'
    cases Schema.kind_eq_of_mem hc hc'
    -- there is one integer of a kind for a number
    have hk := (Scalar.ofCount?_eq_some_iff.mpr hk).symm.trans (Scalar.ofCount?_eq_some_iff.mpr hk')
    refine hsame.eq hm hsame' (List.forall_mem_cons.mpr ⟨hname, List.forall_mem_singleton.mpr ?_⟩)
    rw [hcount, hcount', Option.some.inj hk]

/-- **The sequences that are not refused,** by the names of the fields. -/
theorem setSequence_eq_ok_iff_sequenced :
    setSequence G name items m = .ok () m' ↔ Sequenced G name items m m' := by
  rw [setSequence_eq_ok_iff]
  refine ⟨sequenced_of_replaced hm, fun h => ?_⟩
  obtain ⟨m'', hr⟩ : ∃ m'', Replaced G name items m m'' := by
    obtain ⟨element, x, hf, hi, -, hx⟩ := h
    obtain ⟨i, hf⟩ := List.getElem?_of_mem hf
    have hf := Instance.field_eq_ok_iff_getElem?.mpr hf
    cases x with
    | fixed size =>
      have hconforms : (Value.array items).conforms G (.array element (.fixed size)) = true :=
        Value.conforms_array_iff.mpr ⟨fun _ e => Extent.fixed.inj e ▸ hx.1, hi⟩
      exact ⟨_, i, element, _, hf, hconforms, rfl⟩
    | counted c =>
      obtain ⟨-, p, count, hc, -, hk⟩ := hx
      obtain ⟨j, hc⟩ := List.getElem?_of_mem hc
      exact ⟨_, i, element, _, hf, Value.conforms_array_iff.mpr ⟨nofun, hi⟩, j, p, count,
        Instance.field_eq_ok_iff_getElem?.mpr hc, Scalar.ofCount?_eq_some_iff.mpr hk, rfl⟩
  rwa [h.unique hm (sequenced_of_replaced hm hr)]

end Change

/-! ## What can be written -/

namespace Value

/-- A value of `field` that can be written in the message `m`. -/
def Sound (G : Catalog n) (m : Instance n) (field : String) (kind : Kind n) (v : Value n) : Prop :=
  ∀ a ∈ v.nodes G m field kind, a.Sound G

instance (m : Instance n) (field : String) (kind : Kind n) (v : Value n) :
    Decidable (v.Sound G m field kind) :=
  inferInstanceAs (Decidable (∀ a ∈ v.nodes G m field kind, a.Sound G))

variable {m m' : Instance n} {field : String} {kind : Kind n} {v : Value n}

theorem sound_scalar_iff {p : Primitive} {w : Scalar} :
    (scalar w).Sound G m field (.primitive p) ↔ w.kind = p ∧ w.Writable := by
  simp [Sound, nodes, Node.Sound]

theorem sound_array_iff {element : Kind n} {x : Extent} {items : List (Value n)} :
    (array items).Sound G m field (.array element x) ↔
      x.Counts (G m.schema) m.values items.length ∧ ∀ v ∈ items, v.Sound G m field element := by
  rw [Sound, nodes_array, List.forall_mem_cons, List.forall_mem_flatMap]
  rfl

/-- A value that can be written stays so while the fields that count it stay the same. -/
theorem Sound.of_counts
    (hx : ∀ c, .counted c ∈ kind.extents → m'.get? G c = m.get? G c)
    (h : v.Sound G m field kind) : v.Sound G m' field kind := by
  induction kind generalizing v with
  | primitive p =>
    cases v with
    | scalar w => simpa [Sound, nodes, Node.Sound] using h
    | _ => simp [Sound, nodes, Node.Sound] at h
  | message t =>
    cases v with
    | message u values =>
      rw [Sound, nodes_message, List.forall_mem_cons] at h ⊢
      exact h
    | _ => simp [Sound, nodes, Node.Sound] at h
  | array element x ih =>
    cases v with
    | array items =>
      rw [sound_array_iff] at h ⊢
      refine ⟨?_, fun v hv => ih (fun c hc => hx c (List.mem_cons_of_mem _ hc)) (h.2 v hv)⟩
      cases x with
      | fixed size => exact h.1
      | counted c =>
        have hc : (m'.get? G c).bind toInt? = (m.get? G c).bind toInt? := by
          rw [hx c List.mem_cons_self]
        exact hc.trans h.1
    | _ => simp [Sound, nodes, Node.Sound] at h

end Value

namespace Instance

variable {m m' : Instance n}

theorem mem_zip_iff {f : Field n} {v : Value n} :
    (f, v) ∈ (G m.schema).fields.zip m.values ↔
      f ∈ (G m.schema).fields ∧ m.get? G f.name = some v := by
  constructor
  · intro h
    obtain ⟨i, hi⟩ := List.getElem?_of_mem h
    obtain ⟨hf, hv⟩ := List.getElem?_zip_eq_some.mp hi
    exact ⟨List.mem_of_getElem? hf, (get?_of_getElem? hf).trans hv⟩
  · rintro ⟨hf, hv⟩
    obtain ⟨i, hf⟩ := List.getElem?_of_mem hf
    rw [get?_of_getElem? hf] at hv
    exact List.mem_of_getElem? (List.getElem?_zip_eq_some.mpr ⟨hf, hv⟩)

/-- **A message can be written** if its fields can be. -/
theorem wellFormed_iff : m.WellFormed G ↔
    ∀ f ∈ (G m.schema).fields, ∀ v, m.get? G f.name = some v → v.Sound G m f.name f.kind := by
  rw [WellFormed, nodes, Value.nodesFields_eq_flatMap, List.forall_mem_flatMap]
  constructor
  · intro h f hf v hv
    exact h (f, v) (mem_zip_iff.mpr ⟨hf, hv⟩)
  · rintro h ⟨f, v⟩ hp
    obtain ⟨hf, hv⟩ := mem_zip_iff.mp hp
    exact h f hf v hv

end Instance

/-! ## Where a count may change -/

namespace Schema

variable {S : Schema n} {c name : String} {element : Kind n} {x : Extent}

/-- An array counts nothing. -/
theorem not_counted_of_array (ha : ⟨name, .array element x⟩ ∈ S.fields) {f : Field n}
    (hf : f ∈ S.fields) : .counted name ∉ f.kind.extents := by
  intro hx
  obtain ⟨⟨_, kind⟩, hg, rfl, hk⟩ := S.declared.resolved f hf _ hx
  cases kind_eq_of_mem ha hg
  cases hk

/-- No dimension takes its length from the field `c` but the outermost one of the field `name`, an
array of `element`. -/
def CountsOnly (S : Schema n) (c name : String) (element : Kind n) : Prop :=
  (∀ f ∈ S.fields, f.name ≠ name → .counted c ∉ f.kind.extents) ∧ .counted c ∉ element.extents

instance (S : Schema n) (c name : String) (element : Kind n) :
    Decidable (S.CountsOnly c name element) :=
  inferInstanceAs (Decidable ((∀ f ∈ S.fields, f.name ≠ name → _) ∧ _))

end Schema

/-- An integer can be written. -/
theorem Scalar.writable_of_toInt? {v : Scalar} {k : Int} (h : v.toInt? = some k) : v.Writable := by
  cases v with
  | text s => cases h
  | _ => trivial

section Frame

variable {m m' : Instance n} {names : List String}

/-- A value stays as it is, if no field that counts it is changed. -/
theorem Instance.SameApart.sound (h : m.SameApart G names m') {field : String} {kind : Kind n}
    {v : Value n} (hn : ∀ c ∈ names, .counted c ∉ kind.extents)
    (hv : v.Sound G m field kind) : v.Sound G m' field kind :=
  hv.of_counts fun c hc => h.get? c fun hm => hn c hm hc

/-- A message can still be written if the fields that are changed can be, and count nothing but one
another. -/
theorem Instance.SameApart.wellFormed (h : m.SameApart G names m') (hw : m.WellFormed G)
    (hn : ∀ f ∈ (G m.schema).fields, f.name ∉ names → ∀ c ∈ names, .counted c ∉ f.kind.extents)
    (hnew : ∀ f ∈ (G m.schema).fields, f.name ∈ names → ∀ v, m'.get? G f.name = some v →
      v.Sound G m' f.name f.kind) : m'.WellFormed G := by
  rw [wellFormed_iff] at hw ⊢
  rw [h.schema]
  intro f hf v hv
  by_cases hname : f.name ∈ names
  · exact hnew f hf hname v hv
  · exact h.sound (hn f hf hname) (hw f hf v ((h.get? _ hname).symm.trans hv))

end Frame

namespace Change

variable {m m' : Instance n} {name : String} {items : List (Value n)} {element : Kind n}
  {x : Extent}

/-- **A sequence of elements that can be written** leaves a message that can be written, if nothing
else is counted by the field that counts them. -/
theorem Sequenced.wellFormed (h : Sequenced G name items m m') (hw : m.WellFormed G)
    (hf : ⟨name, .array element x⟩ ∈ (G m.schema).fields)
    (hx : ∀ c, x = .counted c → (G m.schema).CountsOnly c name element)
    (hi : ∀ v ∈ items, v.Sound G m name element) : m'.WellFormed G := by
  obtain ⟨element', x', hf', -, hname, hleft⟩ := h
  cases Schema.kind_eq_of_mem hf hf'
  have harray : .counted name ∉ element.extents := fun hc =>
    Schema.not_counted_of_array hf hf (List.mem_cons_of_mem _ hc)
  cases x with
  | fixed size =>
    obtain ⟨hsize, hsame⟩ := hleft
    refine hsame.wellFormed hw (fun f hfs _ => List.forall_mem_singleton.mpr
      (Schema.not_counted_of_array hf hfs)) fun f hfs hn v hv => ?_
    obtain ⟨_, kind⟩ := f
    obtain rfl := List.mem_singleton.mp hn
    cases Schema.kind_eq_of_mem hf hfs
    obtain rfl := Option.some.inj (hname.symm.trans hv)
    exact Value.sound_array_iff.mpr ⟨hsize, fun w hwi =>
      hsame.sound (List.forall_mem_singleton.mpr harray) (hi w hwi)⟩
  | counted c =>
    obtain ⟨hsame, p, count, hc, hcount, hk⟩ := hleft
    obtain ⟨hothers, hinner⟩ := hx c rfl
    have hcounts : (m'.get? G c).bind Value.toInt? = some (items.length : Int) := by
      rw [hcount]
      exact hk.2
    refine hsame.wellFormed hw (fun f hfs hn => ?_) fun f hfs hn v hv => ?_
    · have hne : f.name ≠ name := fun e => hn (e ▸ List.mem_cons_self)
      exact List.forall_mem_cons.mpr ⟨Schema.not_counted_of_array hf hfs,
        List.forall_mem_singleton.mpr (hothers f hfs hne)⟩
    · obtain ⟨_, kind⟩ := f
      obtain rfl | hn := List.mem_cons.mp hn
      · cases Schema.kind_eq_of_mem hf hfs
        obtain rfl := Option.some.inj (hname.symm.trans hv)
        exact Value.sound_array_iff.mpr ⟨hcounts, fun w hwi => hsame.sound
          (List.forall_mem_cons.mpr ⟨harray, List.forall_mem_singleton.mpr hinner⟩) (hi w hwi)⟩
      · obtain rfl := List.mem_singleton.mp hn
        cases Schema.kind_eq_of_mem hc hfs
        obtain rfl := Option.some.inj (hcount.symm.trans hv)
        exact Value.sound_scalar_iff.mpr ⟨hk.1, Scalar.writable_of_toInt? hk.2⟩

/-- **A sequence is taken as a whole or not at all.** If it is refused, the message is as it was.
Otherwise the array holds the elements, the field that counts them holds their number as an integer
of its own kind, and all else is as it was; that is so whenever the elements conform, are as many as
a fixed length asks for, and have a number of that kind. A message that could be encoded still can
be, if the elements can be written in it and no other dimension takes its length from that field. -/
theorem setSequence_atomic (G : Catalog n) {m : Instance n}
    (hm : m.values.length = (G m.schema).fields.length) (name : String) (items : List (Value n)) :
    (∀ err m', setSequence G name items m = .error err m' → m' = m) ∧
    (∀ m', setSequence G name items m = .ok () m' ↔ Sequenced G name items m m') ∧
    ∀ element x, ⟨name, .array element x⟩ ∈ (G m.schema).fields →
      (∃ bs, m.toBytes G = .ok bs) →
      (∀ c, x = .counted c → (G m.schema).CountsOnly c name element) →
      (∀ v ∈ items, v.Sound G m name element) →
      ∀ m', (setSequence G name items m = .ok () m' ∨
          ∃ err, setSequence G name items m = .error err m') →
        ∃ bs, m'.toBytes G = .ok bs := by
  refine ⟨fun err m' => eq_of_setSequence_eq_error,
    fun m' => setSequence_eq_ok_iff_sequenced hm, fun element x hf hbs hx hi m' h => ?_⟩
  obtain h | ⟨err, h⟩ := h
  · obtain ⟨bs, hbs⟩ := hbs
    have hw : m.WellFormed G := (Instance.toBytes_eq_ok_iff.mp hbs).1
    have hs := (setSequence_eq_ok_iff_sequenced hm).mp h
    exact ⟨_, Instance.toBytes_eq (hs.wellFormed hw hf hx hi)⟩
  · obtain rfl := eq_of_setSequence_eq_error h
    exact hbs

/-- Two rows of two columns. -/
def pairs : List (Value 1) :=
  [.array [.scalar (.byte 1), .scalar (.byte 2)], .array [.scalar (.byte 3), .scalar (.byte 4)]]

theorem setSequence_atomic_pairs :
    Sequenced Instance.tables "cells" pairs
        ⟨.last 0, [.scalar (.int32 0), .scalar (.int32 2), .array []]⟩
        ⟨.last 0, [.scalar (.int32 2), .scalar (.int32 2), .array pairs]⟩ ∧
      ∃ bs, Instance.toBytes Instance.tables
        ⟨.last 0, [.scalar (.int32 2), .scalar (.int32 2), .array pairs]⟩ = .ok bs := by
  obtain ⟨-, hok, hbytes⟩ := setSequence_atomic Instance.tables
    (m := ⟨.last 0, [.scalar (.int32 0), .scalar (.int32 2), .array []]⟩) rfl "cells" pairs
  have hrun : setSequence Instance.tables "cells" pairs
      ⟨.last 0, [.scalar (.int32 0), .scalar (.int32 2), .array []]⟩ =
        .ok () ⟨.last 0, [.scalar (.int32 2), .scalar (.int32 2), .array pairs]⟩ := rfl
  refine ⟨(hok _).mp hrun, hbytes (.array (.primitive .byte) (.counted "columns"))
    (.counted "rows") (by decide) ⟨_, Instance.toBytes_eq (by decide)⟩ ?_ (by decide) _
    (Or.inl hrun)⟩
  rintro c ⟨⟩
  decide

end Change

end MessageWire
