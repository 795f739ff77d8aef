import Mathlib.Tactic.TFAE
import MessageWire.Proofs.Instance.Parts
import MessageWire.Proofs.Instance.RoundTrip
import MessageWire.Proofs.Schema.Declared
import MessageWire.Proofs.Value.Default

/-!
# Default messages

A schema has a default message when it has any message that can be decoded: the default is the
smallest, and a circle by value leaves room for none.

* `Kind.decodable_of_default`, `Catalog.readable_of_defaultBelow`: the default can be decoded;
* `Value.Decodable.exists_of_holds`, `Catalog.acc_of_readable`: what can be decoded ends;
* **`Catalog.new_tfae`**: the schemas that have a default, and what becomes of it.
-/

namespace MessageWire

open Relation (ReflTransGen TransGen)

variable {n : Nat} {G : Catalog n}

/-! ## The default can be decoded -/

theorem Scalar.writable_zero (p : Primitive) : (zero p).Writable := by
  cases p with
  | text => decide
  | _ => trivial

theorem Scalar.within_zero (p : Primitive) (limits : Limits) : (zero p).Within limits := by
  cases p with
  | text => exact Nat.zero_le _
  | _ => trivial

/-- An integer starts at zero. -/
theorem Scalar.toInt?_zero {p : Primitive} (h : p.isInteger = true) :
    (zero p).toInt? = some 0 := by
  cases p <;> first | rfl | cases h

/-- The default of a kind can be decoded if those of nested messages can be, where the fields that
count elements hold zero. -/
theorem Kind.decodable_of_default {nested : Fin n → Except SchemaError (Value n)} {m : Instance n}
    {field : String} {limits : Limits} {room : Nat}
    (hn : ∀ t v, nested t = .ok v → v.Decodable G m field (.message t) limits room) {kind : Kind n}
    (hx : ∀ c, .counted c ∈ kind.extents → (G m.schema).count? m.values c = some 0)
    {v : Value n} (h : kind.default nested = .ok v) : v.Decodable G m field kind limits room := by
  induction kind generalizing v with
  | primitive p =>
    cases h
    exact Value.decodable_primitive_iff.mpr ⟨.zero p, ⟨Scalar.kind_zero p, Scalar.writable_zero p,
      Scalar.within_zero p limits⟩, rfl⟩
  | message t => exact hn t v h
  | array element x ih =>
    rw [Value.decodable_array_iff]
    cases x with
    | fixed size =>
      rw [Kind.default] at h
      split_ifs at h with hz
      · cases h
        exact ⟨[], ⟨⟨by rw [hz]; rfl, trivial⟩, List.forall_mem_nil _⟩, rfl⟩
      · obtain ⟨w, hw, h⟩ := exists_of_bind_eq_ok h
        cases h
        refine ⟨_, ⟨⟨List.length_replicate, trivial⟩, fun u hu => ?_⟩, rfl⟩
        rw [List.eq_of_mem_replicate hu]
        exact ih (fun c hc => hx c (List.mem_cons_of_mem _ hc)) hw
    | counted c =>
      cases h
      exact ⟨[], ⟨⟨hx c List.mem_cons_self, Nat.zero_le _⟩, List.forall_mem_nil _⟩, rfl⟩

namespace Catalog

/-- In a default message the fields that count elements hold zero. -/
theorem count?_of_default {s : Fin n} {nested : Fin n → Except SchemaError (Value n)}
    {values : List (Value n)}
    (h : List.Forall₂ (fun f v => f.kind.default nested = .ok v) (G s).fields values)
    {f : Field n} (hf : f ∈ (G s).fields) {c : String} (hc : .counted c ∈ f.kind.extents) :
    (G s).count? values c = some 0 := by
  obtain ⟨i, g, p, hi, hg, hk, hp⟩ := Schema.exists_count_field hf hc
  obtain ⟨v, hvi, hv⟩ := exists_getElem?_of_forall₂ h hg
  rw [hk] at hv
  cases hv
  rw [Schema.count?, hi, Option.bind_some, hvi]
  exact Scalar.toInt?_zero hp

/-- **A default can be decoded,** under all limits, and has no more levels than there are schemas
that its path has not met. -/
theorem readable_of_defaultBelow (limits : Limits) {path : List (Fin n)} {s : Fin n}
    {values : List (Value n)} (h : G.defaultBelow path s = .ok values) :
    values.length = (G s).fields.length ∧
      (∀ a ∈ Instance.nodes G ⟨s, values⟩, a.Readable G limits) ∧
        Value.nestingAll values ≤ unseen path := by
  induction path, s using defaultBelow.induct generalizing values with
  | case1 path s ih =>
    rw [defaultBelow] at h
    have hall := forall₂_of_mapM_eq_ok h
    have hl := hall.length_eq.symm
    refine ⟨hl, (Instance.forall_decodable_iff hl).mp fun p hp => ?_⟩
    refine Kind.decodable_of_default (fun t v hv => ?_) (fun c hc => ?_) (List.forall₂_zip hall hp)
    · split_ifs at hv with ht
      obtain ⟨vs, hvs, hv⟩ := exists_of_bind_eq_ok hv
      cases hv
      obtain ⟨hlen, hread, hnest⟩ := ih t ht hvs
      have := unseen_cons_lt ht
      exact Value.decodable_message_iff.mpr ⟨vs, ⟨hlen, hread, by omega⟩, rfl⟩
    · exact count?_of_default hall (List.of_mem_zip hp).1 hc

end Catalog

/-! ## What can be decoded ends -/

/-- What holds a message by value has a message inside that can be decoded. -/
theorem Value.Decodable.exists_of_holds {m : Instance n} {field : String} {kind : Kind n}
    {limits : Limits} {room : Nat} {v : Value n} (h : v.Decodable G m field kind limits room)
    {t : Fin n} (ht : kind.Holds t) :
    ∃ values, values.length = (G t).fields.length ∧
      (∀ a ∈ Instance.nodes G ⟨t, values⟩, a.Readable G limits) ∧ nestingAll values < room := by
  induction kind generalizing v with
  | primitive p => exact absurd ht (Kind.not_holds_primitive p)
  | message u =>
    obtain rfl := Kind.holds_message_iff.mp ht
    obtain ⟨values, hvalues, -⟩ := decodable_message_iff.mp h
    exact ⟨values, hvalues⟩
  | array element x ih =>
    obtain ⟨items, -, rfl⟩ := decodable_array_iff.mp h
    cases x with
    | fixed size =>
      obtain ⟨hz, ht⟩ := Kind.holds_fixed_iff.mp ht
      obtain ⟨w, -, hw⟩ := h.exists_mem_of_fixed hz
      exact ih hw ht
    | counted c => exact absurd ht (Kind.not_holds_counted element c)

namespace Catalog

/-- **A message that can be decoded ends:** references by value from its schema do not go on for
ever, as there is one level less in the message at the end of each. -/
theorem acc_of_readable {limits : Limits} {room : Nat} {s : Fin n} {values : List (Value n)}
    (hl : values.length = (G s).fields.length)
    (ha : ∀ a ∈ Instance.nodes G ⟨s, values⟩, a.Readable G limits)
    (hr : Value.nestingAll values < room) : Acc (fun t s => G.Embeds s t) s := by
  induction room generalizing s values with
  | zero => exact absurd hr (Nat.not_lt_zero _)
  | succ room ih =>
    refine .intro s fun t ⟨f, hf, ht⟩ => ?_
    obtain ⟨v, hv⟩ := Instance.exists_value_of_mem hl hf
    have hd := (Instance.forall_decodable_iff hl).mpr ⟨ha, Nat.le_of_lt_succ hr⟩ _ hv
    obtain ⟨vs, hlen, hread, hnest⟩ := hd.exists_of_holds ht
    exact ih hlen hread hnest

/-! ## Whole messages -/

theorem grounded_of_run_decode {s : Fin n} {limits : Limits} {bs : Bytes} {m : Instance n}
    {left : Source} (h : (Instance.decode G s).run (.memory bs) limits = (.ok m, left)) :
    G.Grounded s := by
  obtain ⟨⟨rfl, hm⟩, -⟩ := Instance.run_decode_eq_ok_iff.mp h
  obtain ⟨hl, ha, -⟩ := Instance.forall_readable_iff.mpr hm
  exact grounded_of_acc (acc_of_readable hl ha (Nat.lt_succ_self _))

/-- **A default message is encoded and decoded again.** A message of distinct schemas on every path
has no more levels than a word can count. -/
theorem run_decode_of_new (hn : n < 2 ^ 64) {s : Fin n} {m : Instance n} (h : G.new s = .ok m) :
    m.toBytes G = .ok (wire (m.cells G)) ∧
      (Instance.decode G s).run (.memory (wire (m.cells G))) .unlimited = (.ok m, .memory []) := by
  obtain ⟨values, hvalues, h⟩ := exists_of_bind_eq_ok h
  cases h
  obtain ⟨hl, ha, hr⟩ := readable_of_defaultBelow .unlimited hvalues
  have hnesting : Instance.nesting ⟨s, values⟩ ≤ Limits.unlimited.maxDepth.toNat := by
    have hs : unseen [s] < unseen [] := unseen_cons_lt List.not_mem_nil
    have hall : unseen (n := n) [] ≤ n :=
      Nat.le_trans List.countP_le_length (Nat.le_of_eq List.length_finRange)
    have hmax : Limits.unlimited.maxDepth.toNat = 2 ^ 64 - 1 := rfl
    change 1 + Value.nestingAll values ≤ _
    omega
  have hm := Instance.forall_readable_iff.mp ⟨hl, ha, hnesting⟩
  exact ⟨Instance.toBytes_eq hm.1, Instance.run_decode_eq_ok_iff.mpr ⟨⟨rfl, hm⟩, _, [],
    (List.append_nil _).symm, spells_wire _, rfl⟩⟩

/-- **The schemas that have a default message** are those from which references by value do not lead
in a circle, and those of which any message can be decoded. A failure names a schema on a circle; a
default message is encoded, and comes back from its bytes. Schemas are told apart by words of 64
bits, so there are fewer than `2 ^ 64` of them. -/
theorem new_tfae (G : Catalog n) (hn : n < 2 ^ 64) (s : Fin n) :
    List.TFAE [∃ m, G.new s = .ok m, G.Grounded s,
      ∃ limits bs m left, (Instance.decode G s).run (.memory bs) limits = (.ok m, left)] ∧
    (∀ e, G.new s = .error e → ∃ t, ReflTransGen G.Embeds s t ∧ TransGen G.Embeds t t ∧
      e = .recursiveDefault (G t).name) ∧
    ∀ m, G.new s = .ok m → ∃ bs m', m.toBytes G = .ok bs ∧
      (Instance.decode G s).run (.memory bs) .unlimited = (.ok m', .memory []) ∧
        m'.agrees G m = true := by
  refine ⟨?_, fun e => exists_of_new_eq_error, fun m h => ?_⟩
  · tfae_have 1 → 3 := fun ⟨m, h⟩ => ⟨_, _, m, _, (run_decode_of_new hn h).2⟩
    tfae_have 3 → 2 := fun ⟨_, _, _, _, h⟩ => grounded_of_run_decode h
    tfae_have 2 → 1 := by
      intro hs
      cases h : G.new s with
      | ok m => exact ⟨m, rfl⟩
      | error e =>
        obtain ⟨t, hst, ht, -⟩ := exists_of_new_eq_error h
        exact absurd ht (hs t hst)
    tfae_finish
  · obtain ⟨hbytes, hrun⟩ := run_decode_of_new hn h
    exact ⟨_, m, hbytes, hrun, m.agrees_refl⟩

/-- Two schemas that hold each other by value. -/
def ring : Catalog 2
  | 0 => ⟨"Inner", [⟨"outer", .message (.last 1)⟩], 0, [], by decide, by decide⟩
  | 1 => ⟨"Outer", [⟨"inner", .array (.message ⟨0, Nat.two_pos⟩) (.fixed 2)⟩], 0, [], by decide,
      by decide⟩

/-- A ring has no messages at all; a tree, whose branches are counted, has a default. -/
theorem new_ring_and_tree :
    (∃ t, ring.new 0 = .error (.recursiveDefault (ring t).name)) ∧
      (¬ ∃ limits bs m left,
        (Instance.decode ring 0).run (.memory bs) limits = (.ok m, left)) ∧
      ∃ m, Builtin.catalog.new Builtin.tree = .ok m := by
  obtain ⟨hring, herror, -⟩ := new_tfae ring (by decide) 0
  have hnew : (∃ m, ring.new 0 = .ok m) ↔ ring.Grounded 0 := hring.out 0 1
  have hcircle : ¬ ring.Grounded 0 := by
    have h₀ : ring.Embeds 0 1 := ⟨_, List.mem_cons_self, Kind.holds_message_iff.mpr rfl⟩
    have h₁ : ring.Embeds 1 0 := ⟨_, List.mem_cons_self,
      Kind.holds_fixed_iff.mpr ⟨by decide, Kind.holds_message_iff.mpr rfl⟩⟩
    exact fun h => h 0 .refl (.head h₀ (.single h₁))
  have htree : Builtin.catalog.Grounded Builtin.tree := by
    have hnone (t : Fin 4) : ¬ Builtin.catalog.Embeds Builtin.tree t := by
      simp [Embeds, Builtin.catalog, Builtin.tree, Builtin.treeSchema, Builtin.schema]
    intro t ht hc
    rcases ht.cases_head with rfl | ⟨u, hu, -⟩
    · obtain ⟨u, hu, -⟩ := Relation.TransGen.head'_iff.mp hc
      exact hnone u hu
    · exact hnone u hu
  refine ⟨?_, fun h => hcircle ((hring.out 2 1).mp h),
    ((new_tfae Builtin.catalog (by decide) Builtin.tree).1.out 0 1).mpr htree⟩
  cases h : ring.new 0 with
  | ok m => exact absurd (hnew.mp ⟨m, h⟩) hcircle
  | error e =>
    obtain ⟨t, -, -, rfl⟩ := herror e h
    exact ⟨t, rfl⟩

end Catalog

end MessageWire
