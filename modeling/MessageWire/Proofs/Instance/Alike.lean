import MessageWire.Proofs.Instance.Parts
import MessageWire.Proofs.Instance.RoundTrip
import MessageWire.Proofs.Schema.Order

/-!
# Schemas that stand for each other

A message of one schema is taken for one of another if the two are compatible. Its bytes are decoded
as a message of the other schema if the schemas, and those of their nested messages, have the same
fields; that the two are compatible does not say so.

* `Kind.Alike`, `Catalog.Alike`: kinds and schemas of the same shape;
* `Value.recast`: a value bound to other schemas of that shape, `Value.decodable_recast`;
* **`Instance.run_decode_of_alike`**: messages of alike schemas;
* `Instance.not_run_decode_of_swapped`: messages of compatible schemas that are not alike.
-/

namespace MessageWire

variable {n : Nat} {G : Catalog n}

/-! ## Shapes -/

/-- The same primitives in the same dimensions, and related schemas in the same places. -/
def Kind.Alike (R : Fin n → Fin n → Prop) : Kind n → Kind n → Prop
  | .primitive p, .primitive q => p = q
  | .message s, .message t => R s t
  | .array element x, .array element' x' => element.Alike R element' ∧ x = x'
  | _, _ => False

/-- **Schemas of the same shape:** related schemas are compatible, and their fields have the same
names and kinds of the same shape. -/
def Catalog.Alike (G : Catalog n) (R : Fin n → Fin n → Prop) : Prop :=
  ∀ s t, R s t → G.compatible s t = true ∧
    List.Forall₂ (fun f g => f.name = g.name ∧ f.kind.Alike R g.kind) (G s).fields (G t).fields

theorem Catalog.compatible_symm {s t : Fin n} (h : G.compatible s t = true) :
    G.compatible t s = true :=
  have ⟨hname, hfingerprint⟩ := G.compatible_iff.mp h
  G.compatible_iff.mpr ⟨hname.symm, hfingerprint.symm⟩

/-! ## Values of another schema -/

namespace Value

mutual

/-- A value of the shape of a kind, with every message bound to the schema that the kind names. -/
def recast (G : Catalog n) : Kind n → Value n → Value n
  | .message t, .message _ values => .message t (recastFields G (G t).fields values)
  | .array element _, .array items => .array (recastAll G element items)
  | _, v => v

/-- The elements of an array. -/
def recastAll (G : Catalog n) (kind : Kind n) : List (Value n) → List (Value n)
  | [] => []
  | v :: vs => recast G kind v :: recastAll G kind vs

/-- The values of the fields of a message. -/
def recastFields (G : Catalog n) : List (Field n) → List (Value n) → List (Value n)
  | f :: fs, v :: vs => recast G f.kind v :: recastFields G fs vs
  | _, vs => vs

end

theorem recast_scalar (kind : Kind n) (w : Scalar) : recast G kind (.scalar w) = .scalar w := by
  cases kind <;> rfl

theorem recastAll_eq_map (kind : Kind n) (vs : List (Value n)) :
    recastAll G kind vs = vs.map (recast G kind) := by
  induction vs with
  | nil => rfl
  | cons v vs ih => rw [recastAll, ih, List.map_cons]

theorem length_recastFields (fs : List (Field n)) (vs : List (Value n)) :
    (recastFields G fs vs).length = vs.length := by
  induction fs generalizing vs with
  | nil => cases vs <;> rfl
  | cons f fs ih =>
    cases vs with
    | nil => rfl
    | cons v vs => rw [recastFields, List.length_cons, List.length_cons, ih]

/-- Numbers stay as they are. -/
theorem toInt?_recast (kind : Kind n) (v : Value n) : (recast G kind v).toInt? = v.toInt? := by
  cases v <;> cases kind <;> rfl

theorem toInt?_getElem?_recastFields (fs : List (Field n)) (vs : List (Value n)) (i : Nat) :
    ((recastFields G fs vs)[i]?).bind toInt? = vs[i]?.bind toInt? := by
  induction fs generalizing vs i with
  | nil => cases vs <;> rfl
  | cons f fs ih =>
    cases vs with
    | nil => rfl
    | cons v vs =>
      cases i with
      | zero => exact toInt?_recast f.kind v
      | succ i => exact ih vs i

end Value

theorem Value.agreesAll_map {f : Value n → Value n} {vs : List (Value n)}
    (h : ∀ v ∈ vs, (f v).agrees G v = true) : agreesAll G (vs.map f) vs = true := by
  induction vs with
  | nil => rfl
  | cons v vs ih =>
    rw [List.forall_mem_cons] at h
    rw [List.map_cons, agreesAll, h.1, ih h.2]
    rfl

/-- A field has the same place in schemas whose fields have the same names. -/
theorem Schema.index?_congr {S T : Schema n} {R : Field n → Field n → Prop}
    (h : List.Forall₂ (fun f g => f.name = g.name ∧ R f g) S.fields T.fields) (c : String) :
    T.index? c = S.index? c := by
  have hnames : S.fields.map (·.name) = T.fields.map (·.name) := by
    rw [← List.forall₂_eq_eq_eq, List.forall₂_map_left_iff, List.forall₂_map_right_iff]
    exact h.imp fun _ _ h => h.1
  have hindex (U : Schema n) : U.index? c = (U.fields.map (·.name)).findIdx? (· == c) := by
    rw [List.findIdx?_map]
    rfl
  rw [hindex, hindex, hnames]

/-- **What becomes of a message** of schema `s` with values that can be decoded when it is bound to
schema `t`: it can be decoded, has the same wire form, and agrees with what it was. -/
structure Instance.Recast (G : Catalog n) (limits : Limits) (room : Nat) (s t : Fin n)
    (values : List (Value n)) : Prop where
  length : (Value.recastFields G (G t).fields values).length = (G t).fields.length
  readable : ∀ a ∈ nodes G ⟨t, Value.recastFields G (G t).fields values⟩, a.Readable G limits
  nesting : Value.nestingAll (Value.recastFields G (G t).fields values) < room
  cells : (nodes G ⟨t, Value.recastFields G (G t).fields values⟩).flatMap Node.cells =
    (nodes G ⟨s, values⟩).flatMap Node.cells
  agrees : Value.agreesAll G (Value.recastFields G (G t).fields values) values = true

section Recast

variable {R : Fin n → Fin n → Prop} {limits : Limits} {room : Nat}

namespace Value

section

variable (hR : G.Alike R) (m m' : Instance n)
  (hn : ∀ s t values, R s t → values.length = (G s).fields.length →
    (∀ a ∈ Instance.nodes G ⟨s, values⟩, a.Readable G limits) → nestingAll values < room →
      Instance.Recast G limits room s t values)
  (hx : ∀ (x : Extent) k, x.Counts (G m'.schema) m'.values k ↔ x.Counts (G m.schema) m.values k)

include hR hn hx

/-- A value of a kind, given the nested messages, where the fields that count hold the same
numbers. -/
theorem decodable_recast {kind kind' : Kind n} (hk : kind.Alike R kind') {field field' : String}
    {v : Value n} (h : v.Decodable G m field kind limits room) :
    (v.recast G kind').Decodable G m' field' kind' limits room ∧
      (v.recast G kind').cells G m' field' kind' = v.cells G m field kind ∧
        (v.recast G kind').agrees G v = true := by
  induction kind generalizing kind' v with
  | primitive p =>
    cases kind' with
    | primitive q =>
      obtain rfl : p = q := hk
      obtain ⟨w, hw, rfl⟩ := decodable_primitive_iff.mp h
      rw [recast_scalar, cells_scalar, cells_scalar]
      exact ⟨decodable_primitive_iff.mpr ⟨w, hw, rfl⟩, rfl, agrees_refl _⟩
    | _ => exact hk.elim
  | message s =>
    cases kind' with
    | message t =>
      obtain ⟨values, ⟨hl, ha, hr⟩, rfl⟩ := decodable_message_iff.mp h
      have hm := hn s t values hk hl ha hr
      rw [recast, cells_message, cells_message, agrees,
        Catalog.compatible_symm (hR s t hk).1, Bool.true_and]
      exact ⟨decodable_message_iff.mpr ⟨_, ⟨hm.length, hm.readable, hm.nesting⟩, rfl⟩, hm.cells,
        hm.agrees⟩
    | _ => exact hk.elim
  | array element x ih =>
    cases kind' with
    | array element' x' =>
      obtain ⟨he, rfl⟩ := hk
      obtain ⟨items, ⟨⟨hc, hw⟩, hi⟩, rfl⟩ := decodable_array_iff.mp h
      have hall (w : Value n) (hm : w ∈ items) := ih he (hi w hm)
      rw [recast, recastAll_eq_map, cells_array, cells_array, List.flatMap_map, agrees]
      refine ⟨decodable_array_iff.mpr ⟨_, ⟨?_, ?_⟩, rfl⟩,
        List.flatMap_congr fun w hm => (hall w hm).2.1, ?_⟩
      · rw [List.length_map, hx]
        exact ⟨hc, hw⟩
      · rw [List.forall_mem_map]
        exact fun w hm => (hall w hm).1
      · exact agreesAll_map fun w hm => (hall w hm).2.2
    | _ => exact hk.elim

/-- The fields of a message. -/
theorem decodable_recastFields {fs gs : List (Field n)}
    (hfs : List.Forall₂ (fun f g => f.name = g.name ∧ f.kind.Alike R g.kind) fs gs)
    {vs : List (Value n)} (hl : vs.length = fs.length)
    (h : ∀ p ∈ fs.zip vs, p.2.Decodable G m p.1.name p.1.kind limits room) :
    (∀ p ∈ gs.zip (recastFields G gs vs), p.2.Decodable G m' p.1.name p.1.kind limits room) ∧
      ((gs.zip (recastFields G gs vs)).flatMap fun p => p.2.cells G m' p.1.name p.1.kind) =
        ((fs.zip vs).flatMap fun p => p.2.cells G m p.1.name p.1.kind) ∧
      agreesAll G (recastFields G gs vs) vs = true := by
  induction hfs generalizing vs with
  | nil =>
    obtain rfl := List.length_eq_zero_iff.mp hl
    exact ⟨List.forall_mem_nil _, rfl, rfl⟩
  | @cons f g fs gs hfg _ ih =>
    obtain ⟨v, vs, rfl⟩ := List.exists_cons_of_length_eq_add_one hl
    rw [List.zip_cons_cons, List.forall_mem_cons] at h
    obtain ⟨hv, hcells, hagrees⟩ : (v.recast G g.kind).Decodable G m' g.name g.kind limits room ∧
        _ ∧ _ := decodable_recast hR m m' hn hx hfg.2 h.1
    obtain ⟨hvs, hcellsAll, hagreesAll⟩ := ih (Nat.succ.inj hl) h.2
    rw [recastFields, List.zip_cons_cons, List.forall_mem_cons, List.flatMap_cons, hcells,
      hcellsAll, agreesAll, hagrees, hagreesAll]
    exact ⟨⟨hv, hvs⟩, rfl, rfl⟩

end

end Value

/-- **A message bound to a schema of the same shape.** -/
theorem Instance.recast_of_alike (hR : G.Alike R) {s t : Fin n} (hst : R s t)
    {values : List (Value n)} (hl : values.length = (G s).fields.length)
    (ha : ∀ a ∈ nodes G ⟨s, values⟩, a.Readable G limits)
    (hr : Value.nestingAll values < room) : Recast G limits room s t values := by
  -- messages inside have one level less
  induction room generalizing s t values with
  | zero => exact absurd hr (Nat.not_lt_zero _)
  | succ room ih =>
    obtain ⟨-, hfs⟩ := hR s t hst
    have hx (x : Extent) (k : Nat) :
        x.Counts (G t) (Value.recastFields G (G t).fields values) k ↔ x.Counts (G s) values k := by
      cases x with
      | fixed size => rfl
      | counted c =>
        rw [Extent.Counts, Extent.Counts, Schema.count?, Schema.count?, Schema.index?_congr hfs]
        cases (G s).index? c with
        | none => rfl
        | some i =>
          rw [Option.bind_some, Option.bind_some, Value.toInt?_getElem?_recastFields]
    have hlen : (Value.recastFields G (G t).fields values).length = (G t).fields.length := by
      rw [Value.length_recastFields, hl, hfs.length_eq]
    obtain ⟨hd, hcells, hagrees⟩ := Value.decodable_recastFields hR ⟨s, values⟩
      ⟨t, Value.recastFields G (G t).fields values⟩
      (fun s t values hst hl ha hr => ih hst hl ha hr) hx hfs hl
      ((forall_decodable_iff hl).mpr ⟨ha, Nat.le_of_lt_succ hr⟩)
    obtain ⟨hread, hnest⟩ := (forall_decodable_iff hlen).mp hd
    refine ⟨hlen, hread, Nat.lt_succ_of_le hnest, ?_, hagrees⟩
    rw [nodes_eq_flatMap, nodes_eq_flatMap, List.flatMap_assoc, List.flatMap_assoc]
    exact hcells

end Recast

/-! ## Whole messages -/

namespace Instance

/-- **A message is decoded under any schema of the same shape** as its own, from the bytes that it
is encoded in, and comes back as a message of that schema that agrees with it. -/
theorem run_decode_of_alike {R : Fin n → Fin n → Prop} (hR : G.Alike R) {m : Instance n} {t : Fin n}
    (ht : R m.schema t) (hc : m.Complete G) (hb : m.Bound G) {limits : Limits}
    (hl : m.Respects G limits) {bs : Bytes} (h : m.toBytes G = .ok bs) (rest : Bytes) :
    ∃ m', (decode G t).run (.memory (bs ++ rest)) limits = (.ok m', .memory rest) ∧
      m'.schema = t ∧ m'.agrees G m = true := by
  obtain ⟨hw, rfl⟩ := toBytes_eq_ok_iff.mp h
  obtain ⟨hlen, hread, hnest⟩ := forall_readable_iff.mpr ⟨hw, hb, hc, hl⟩
  have hm := recast_of_alike hR ht hlen hread (Nat.lt_succ_self _)
  have hcompatible := (hR _ _ ht).1
  refine ⟨⟨t, Value.recastFields G (G t).fields m.values⟩, ?_, rfl, ?_⟩
  · have hnest' : nesting ⟨t, Value.recastFields G (G t).fields m.values⟩ ≤
        limits.maxDepth.toNat := by
      have := Nat.le_of_lt_succ hm.nesting
      unfold nesting at hnest ⊢
      dsimp only
      omega
    have hcells : cells G ⟨t, Value.recastFields G (G t).fields m.values⟩ = m.cells G := by
      rw [cells, cells, hm.cells, (G.compatible_iff.mp hcompatible).2]
    refine run_decode_eq_ok_iff.mpr ⟨⟨rfl, forall_readable_iff.mp ⟨hm.length, hm.readable, hnest'⟩⟩,
      _, rest, rfl, ?_, rfl⟩
    rw [hcells]
    exact spells_wire _
  · rw [agrees, Catalog.compatible_symm hcompatible, Bool.true_and]
    exact hm.agrees

/-! ## Two pairs -/

theorem declared_couple (a b : Fin 4) :
    Declared [] [⟨"left", .message a⟩, ⟨"right", .message b⟩] :=
  have hleft : "left" ≠ "" := by decide
  have hright : "right" ≠ "" := by decide
  have hne : "left" ≠ "right" := by decide
  ⟨hleft, List.forall_mem_nil _, List.forall_mem_nil _, hright, List.forall_mem_singleton.mpr hne,
    List.forall_mem_nil _, trivial⟩

/-- A pair of messages. -/
def couple (a b : Fin 4) : Schema 4 :=
  ⟨"Couple", [⟨"left", .message a⟩, ⟨"right", .message b⟩],
    MemberHash.seed [⟨"left", Kind.message a⟩, ⟨"right", .message b⟩], [], by decide,
    declared_couple a b⟩

/-- A number. -/
def number : Schema 4 :=
  ⟨"Count", [⟨"value", .primitive .int32⟩], MemberHash.seed (n := 4) [⟨"value", .primitive .int32⟩],
    [], by decide, by decide⟩

/-- A text. -/
def label : Schema 4 :=
  ⟨"Label", [⟨"text", .primitive .text⟩], MemberHash.seed (n := 4) [⟨"text", .primitive .text⟩], [],
    by decide, by decide⟩

/-- Two pairs of a number and another message. -/
def couples (other : Schema 4) (a b c d : Fin 4) : Catalog 4
  | 0 => couple a b
  | 1 => couple c d
  | 2 => number
  | 3 => other

/-- The place of the first schema that is not a pair. -/
def third : Fin 4 := .castSucc (.last 2)

/-- The place of the second one. -/
def fourth : Fin 4 := .last 3

/-- Two pairs of numbers, each with a schema of its own for them. -/
def twins : Catalog 4 := couples number third third fourth fourth

/-- A pair of a number and a text, and one of a text and a number. -/
def swapped : Catalog 4 := couples label third fourth fourth third

/-- The seed of a pair does not tell what is in it. -/
theorem baseSeed_couple (a b c d : Fin 4) : (couple a b).baseSeed = (couple c d).baseSeed := rfl

/-- From a pair of one schema to one of the other. -/
theorem run_decode_twins :
    ∃ m', (decode twins 1).run (.memory (wire (cells twins
        ⟨0, [.message third [.scalar (.int32 7)], .message third [.scalar (.int32 9)]]⟩) ++ [255]))
        .standard = (.ok m', .memory [255]) ∧ m'.schema = 1 ∧
      m'.agrees twins
        ⟨0, [.message third [.scalar (.int32 7)], .message third [.scalar (.int32 9)]]⟩ = true := by
  let R (s t : Fin 4) : Prop := (s = 0 ∧ t = 1) ∨ (s = third ∧ t = fourth)
  have hmatch : Catalog.Matches twins twins R := by
    rintro s t (⟨rfl, rfl⟩ | ⟨rfl, rfl⟩)
    · exact ⟨baseSeed_couple third third fourth fourth,
        .cons (Or.inr ⟨rfl, rfl⟩) (.cons (Or.inr ⟨rfl, rfl⟩) .nil)⟩
    · exact ⟨rfl, .nil⟩
  have hacyclic := Catalog.acyclic_of_lt (G := twins) (by decide)
  have hcompatible {s t : Fin 4} (hst : R s t)
      (hname : (twins s).name = (twins t).name) :
      twins.compatible s t = true :=
    twins.compatible_iff.mpr ⟨hname, hmatch.fingerprint_eq hst (hacyclic s) (hacyclic t)⟩
  have hR : twins.Alike R := by
    rintro s t (⟨rfl, rfl⟩ | ⟨rfl, rfl⟩)
    · exact ⟨hcompatible (Or.inl ⟨rfl, rfl⟩) rfl, .cons ⟨rfl, Or.inr ⟨rfl, rfl⟩⟩
        (.cons ⟨rfl, Or.inr ⟨rfl, rfl⟩⟩ .nil)⟩
    · exact ⟨hcompatible (Or.inr ⟨rfl, rfl⟩) rfl, .cons ⟨rfl, rfl⟩ .nil⟩
  exact run_decode_of_alike hR (Or.inl ⟨rfl, rfl⟩) (by decide) (by decide) (by decide)
    (toBytes_eq (by decide)) [255]

/-- What is decoded as a text and a number begins with the length of a text. -/
theorem exists_of_run_decode_swapped {bs : Bytes} {limits : Limits} {m : Instance 4} {left : Source}
    (h : (decode swapped 1).run (.memory bs) limits = (.ok m, left)) :
    ∃ k rest, 0 < k ∧ k < 256 ^ textLengthSize ∧
      bs.drop fingerprintSize = BigEndian.encode textLengthSize k ++ rest := by
  obtain ⟨⟨hschema, hm⟩, used, rest, rfl, hs, -⟩ := run_decode_eq_ok_iff.mp h
  obtain ⟨s, values⟩ := m
  obtain rfl : s = 1 := hschema
  obtain ⟨hl, ha, -⟩ := forall_readable_iff.mpr hm
  obtain ⟨v, w, rfl⟩ := List.length_eq_two.mp hl
  have hv := (forall_decodable_iff hl).mpr ⟨ha, Nat.le_refl _⟩ _ List.mem_cons_self
  obtain ⟨texts, ⟨hl', ha', -⟩, rfl⟩ := Value.decodable_message_iff.mp hv
  obtain ⟨t, rfl⟩ := List.length_eq_one_iff.mp hl'
  have ht := (forall_decodable_iff hl').mpr ⟨ha', Nat.le_refl _⟩ _ List.mem_cons_self
  obtain ⟨u, ⟨hk, hw, -⟩, rfl⟩ := Value.decodable_primitive_iff.mp ht
  cases u with
  | text s =>
    have hcells : (nodes swapped ⟨1, [.message fourth [.scalar (.text s)], w]⟩).flatMap Node.cells =
        (Scalar.text s).cells ++ w.cells swapped
          ⟨1, [.message fourth [.scalar (.text s)], w]⟩ "right" (.message third) := by
      have hleft : Value.cells swapped ⟨1, [.message fourth [.scalar (.text s)], w]⟩ "left"
          (.message fourth) (.message fourth [.scalar (.text s)]) = (Scalar.text s).cells :=
        List.append_nil _
      have hright (cs : List Cell) : cs ++ (w.cells swapped
          ⟨1, [.message fourth [.scalar (.text s)], w]⟩ "right" (.message third) ++ []) = _ :=
        congrArg (cs ++ ·) (List.append_nil _)
      rw [nodes_eq_flatMap, List.flatMap_assoc, ← hleft]
      exact hright _
    rw [cells, hcells, Scalar.cells] at hs
    -- the fingerprint, the length of the text, and what follows
    obtain ⟨front, us, rfl, hfront, hs⟩ := spells_append_iff.mp hs
    obtain ⟨text, vs, rfl, htext, -⟩ := spells_append_iff.mp hs
    rw [List.append_assoc] at htext
    obtain ⟨word, content, rfl, hword, -⟩ := spells_append_iff.mp htext
    rw [spells_contents_iff] at hfront hword
    have hlen : front.length = fingerprintSize := by
      rw [hfront]
      exact BigEndian.length_encode ..
    refine ⟨(utf8 s).length + 1, content ++ vs ++ rest, Nat.succ_pos _, ?_, ?_⟩
    · have hpow : 256 ^ textLengthSize = 2 ^ 32 := rfl
      have := hw.2
      omega
    · rw [List.append_assoc, List.drop_left' hlen, hword]
      simp only [List.append_assoc]
  | _ => cases hk

/-- **Compatible schemas that are not alike:** two pairs of the same messages in different order. A
pair with default values is not decoded under the schema of the other. -/
theorem not_run_decode_of_swapped :
    (∀ s, ∃ d : Description 4, d.baseSeed? = none ∧ d.build = .ok (swapped s)) ∧
      swapped.compatible 0 1 = true ∧
      ∃ (m : Instance 4) (bs : Bytes), m.schema = 0 ∧ m.Bound swapped ∧ m.Complete swapped ∧
        m.toBytes swapped = .ok bs ∧
        ∀ limits m' left, (decode swapped 1).run (.memory bs) limits ≠ (.ok m', left) := by
  refine ⟨fun s => ?_, ?_,
    ⟨0, [.message third [.scalar (.int32 0)], .message fourth [.scalar (.text "")]]⟩, _, rfl,
    by decide, by decide, toBytes_eq (by decide), fun limits m' left h => ?_⟩
  · match s with
    | 0 =>
      exact ⟨⟨"Couple", [⟨"left", .message third⟩, ⟨"right", .message fourth⟩], [], none⟩, rfl, rfl⟩
    | 1 =>
      exact ⟨⟨"Couple", [⟨"left", .message fourth⟩, ⟨"right", .message third⟩], [], none⟩, rfl, rfl⟩
    | 2 => exact ⟨⟨"Count", [⟨"value", .primitive .int32⟩], [], none⟩, rfl, rfl⟩
    | 3 => exact ⟨⟨"Label", [⟨"text", .primitive .text⟩], [], none⟩, rfl, rfl⟩
  · have hlt : ∀ s, ∀ t ∈ swapped.nested s, s < t := by decide
    have hapart (s t : Fin 4) (ht : t ∈ swapped.nested s) : ¬ swapped.Reaches t s := fun hr =>
      Nat.not_lt.mpr (Catalog.le_of_reaches hlt hr) (hlt s t ht)
    exact swapped.compatible_iff.mpr ⟨rfl, Catalog.fingerprint_eq_of_perm
      (baseSeed_couple third fourth fourth third) (by decide) (hapart 0) (hapart 1)⟩
  · obtain ⟨k, rest, hk, hlt, hdrop⟩ := exists_of_run_decode_swapped h
    have hwire : (wire (cells swapped ⟨0, [.message third [.scalar (.int32 0)],
        .message fourth [.scalar (.text "")]]⟩)).drop fingerprintSize =
          [0, 0, 0, 0, 0, 0, 0, 1, 0] := by
      rw [cells, wire_append, wire_contents]
      exact List.drop_left' (BigEndian.length_encode ..)
    rw [hwire] at hdrop
    have hsplit : BigEndian.encode textLengthSize k ++ rest = [0, 0, 0, 0] ++ [0, 0, 0, 1, 0] :=
      hdrop.symm
    have hzero := congrArg BigEndian.decode
      (List.append_inj_left hsplit (BigEndian.length_encode ..))
    rw [BigEndian.decode_encode, Nat.mod_eq_of_lt hlt] at hzero
    exact absurd hzero (Nat.ne_of_gt hk)

end Instance

end MessageWire
