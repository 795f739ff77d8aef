import MessageWire.Proofs.Instance.Refusal
import MessageWire.Proofs.Wire.Yields

/-!
# What the decoder answers

A count has been read, as an integer, before the array that it counts. So the decoder fails for what
is wrong with the input, and never for want of a field.

* `Extent.Resolved.exists_count`: the place of a field that counts;
* `Typed`, `Tallied`: values of the kinds of their fields, **`Tallied.exists_count?`**;
* `yields_kind`, `yields_fields`, `yields_message`: the decoder, by recursion on kinds, on fields
  and on the levels that are left;
* **`yields_decode`**: a whole message.
-/

namespace MessageWire

variable {n : Nat}

/-- A counted dimension is counted by an integer field among the earlier ones. -/
theorem Extent.Resolved.exists_count {S : Schema n} {earlier rest : List (Field n)}
    (hS : S.fields = earlier ++ rest) {c : String} (h : (counted c).Resolved earlier) :
    ∃ i p, S.index? c = some i ∧ earlier[i]? = some ⟨c, .primitive p⟩ ∧ p.isInteger = true := by
  obtain ⟨⟨name, kind⟩, hg, rfl, hk⟩ := h
  obtain ⟨i, hi, hindex⟩ := Schema.index?_of_mem hS hg
  obtain ⟨j, hj, hf⟩ := Schema.exists_index? (S := S) (hS ▸ List.mem_append_left _ hg)
  obtain rfl : i = j := Option.some.inj (hindex.symm.trans hj)
  rw [hS, List.getElem?_append_left hi] at hf
  cases kind with
  | primitive p => exact ⟨i, p, hindex, hf, hk⟩
  | _ => cases hk

/-- A value of a primitive kind is a scalar of it. -/
def Typed (kind : Kind n) (v : Value n) : Prop :=
  ∀ p, kind = .primitive p → ∃ w, v = .scalar w ∧ w.kind = p

theorem typed_message (t : Fin n) (v : Value n) : Typed (.message t) v := by
  intro p hp
  cases hp

theorem typed_array (element : Kind n) (x : Extent) (v : Value n) : Typed (.array element x) v := by
  intro p hp
  cases hp

/-- The fields that have been read, of the kinds of the schema. -/
def Tallied (earlier : List (Field n)) (done : List (Value n × Nat)) : Prop :=
  List.Forall₂ (fun f p => Typed f.kind p.1) earlier done

section Decoder

variable {S : Schema n} {nested : Fin n → Read (Value n)} {earlier : List (Field n)}
  {done : List (Value n × Nat)}

/-- **A count has been read** before the array that it counts. -/
theorem Tallied.exists_count? (h : Tallied earlier done) {rest : List (Field n)}
    (hS : S.fields = earlier ++ rest) {c : String} (hc : (Extent.counted c).Resolved earlier) :
    ∃ k offset, Read.count? S done c = some (k, offset) := by
  obtain ⟨i, p, hi, hf, hp⟩ := hc.exists_count hS
  obtain ⟨⟨v, offset⟩, hd, htyped⟩ := exists_getElem?_of_forall₂ h hf
  obtain ⟨w, rfl, rfl⟩ := htyped p rfl
  obtain ⟨k, hk⟩ := Scalar.exists_toInt? hp
  refine ⟨k, offset, ?_⟩
  have hint : (Value.scalar w : Value n).toInt? = some k := hk
  simp [Read.count?, hi, hd, hint]

/-- **A value of a kind**, where the counts of its dimensions have been read. -/
theorem yields_kind (hn : ∀ t, Yields (fun _ => True) (nested t)) {kind : Kind n}
    (hc : ∀ c, .counted c ∈ kind.extents → ∃ k offset, Read.count? S done c = some (k, offset)) :
    Yields (Typed kind) (Read.kind nested S done kind) := by
  induction kind with
  | primitive p =>
    exact (yields_scalar p).map fun w hw q hq => ⟨w, rfl, hw.trans (Kind.primitive.inj hq)⟩
  | message t =>
    rw [Read.kind]
    exact (hn t).mono fun v _ => typed_message t v
  | array element x ih =>
    have helement := ih fun c hm => hc c (List.mem_cons_of_mem _ hm)
    cases x with
    | fixed size => exact (helement.times _).map fun _ _ => typed_array element _ _
    | counted c =>
      obtain ⟨k, offset, hk⟩ := hc c List.mem_cons_self
      have hcounted : Yields (fun _ => True) (Read.counted S done c) := by
        rw [Read.counted, hk]
        exact yields_countAt k offset
      exact hcounted.bind fun k _ => (helement.times k).map fun _ _ => typed_array element _ _

/-- The fields that are left, one after the other. -/
theorem yields_fields (hn : ∀ t, Yields (fun _ => True) (nested t)) {fs : List (Field n)}
    (hS : S.fields = earlier ++ fs) (h : Tallied earlier done) :
    Yields (fun _ => True) (Read.fields nested S done fs) := by
  induction fs generalizing earlier done with
  | nil => exact .pure trivial
  | cons f fs ih =>
    obtain ⟨-, -, -, hx, -⟩ := Declared.of_append (hS ▸ S.declared)
    refine .get fun offset =>
      (yields_kind hn fun c hc => h.exists_count? hS (hx _ hc)).bind fun v hv => ?_
    exact ih (by rw [hS, List.append_cons]) (List.rel_append h (.cons hv .nil))

end Decoder

/-- **The values of a message**, by the levels that are left. -/
theorem yields_message (G : Catalog n) (room : Nat) (s : Fin n) :
    Yields (fun _ => True) (Read.message G room s) := by
  induction room generalizing s with
  | zero => exact .get fun _ => .throw trivial
  | succ room ih =>
    have hn (t : Fin n) : Yields (fun _ => True)
        (Read.level (return Value.message t (← Read.message G room t))) :=
      ((ih t).map fun _ _ => trivial).level
    exact (yields_fields hn rfl .nil).map fun _ _ => trivial

theorem yields_decode (G : Catalog n) (s : Fin n) :
    Yields (fun _ => True) (Instance.decode G s) :=
  (yields_expect _ _).bind fun _ _ => .get fun _ =>
    ((yields_message G _ s).map fun _ _ => trivial).level

end MessageWire
