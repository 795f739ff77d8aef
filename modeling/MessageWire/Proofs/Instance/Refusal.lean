import MessageWire.Proofs.Instance.Counted
import MessageWire.Proofs.Instance.Offence
import MessageWire.Proofs.Instance.Shaped

/-!
# Why a message is not encoded

An encoder stops at the first node that cannot be written, with an error about that node. In a
message of the right shape few such nodes are left: a counted array whose length is not its count,
and a text without a wire form.

* `Node.Fitting`, `Instance.Shaped.fitting`: a node of a shaped message;
* `Node.Refused`: the errors that are left, `Node.Fitting.refused`;
* **`Made.shaped_and_refused`**: messages that have been made, and why they are not encoded.
-/

namespace MessageWire

variable {n : Nat} {G : Catalog n}

/-! ## Nodes of a shaped message -/

/-- A node that holds what its kind asks for, in a message that fits its schema and in which the
counted dimensions of the kind are declared. -/
structure Node.Fitting (G : Catalog n) (a : Node n) : Prop where
  conforms : a.value.conforms G a.kind = true
  around : a.around.Fits G
  declared : ∃ f ∈ (G a.around.schema).fields, a.kind.extents ⊆ f.kind.extents

namespace Value

mutual

theorem Shaped.fitting {v : Value n} (hv : v.Shaped G) {m : Instance n} {field : String}
    {kind : Kind n} (h : Node.Fitting G ⟨m, field, kind, v⟩) :
    ∀ a ∈ v.nodes G m field kind, a.Fitting G := by
  cases v with
  | scalar w => cases kind <;> simpa [nodes] using h
  | array items =>
    cases kind with
    | array element x =>
      rw [nodes, List.forall_mem_cons]
      obtain ⟨f, hf, hx⟩ := h.declared
      exact ⟨h, fittingAll (shaped_array_iff.mp hv) (conforms_array_iff.mp h.conforms).2 h.around
        ⟨f, hf, List.subset_of_cons_subset hx⟩⟩
    | _ => simpa [nodes] using h
  | message u values =>
    cases kind with
    | message t =>
      rw [nodes, List.forall_mem_cons]
      obtain ⟨hfits, hvalues⟩ := Instance.shaped_iff.mp (shaped_message_iff.mp hv)
      exact ⟨h, fittingFields hvalues hfits hfits (List.Subset.refl _)⟩
    | _ => simpa [nodes] using h

theorem fittingAll {vs : List (Value n)} (hv : ∀ v ∈ vs, v.Shaped G) {m : Instance n}
    {field : String} {kind : Kind n} (hc : ∀ v ∈ vs, v.conforms G kind = true) (hm : m.Fits G)
    (hx : ∃ f ∈ (G m.schema).fields, kind.extents ⊆ f.kind.extents) :
    ∀ a ∈ nodesAll G m field kind vs, a.Fitting G := by
  cases vs with
  | nil => exact List.forall_mem_nil _
  | cons v vs =>
    rw [List.forall_mem_cons] at hv hc
    rw [nodesAll, List.forall_mem_append]
    exact ⟨Shaped.fitting hv.1 ⟨hc.1, hm, hx⟩, fittingAll hv.2 hc.2 hm hx⟩

theorem fittingFields {vs : List (Value n)} (hv : ∀ v ∈ vs, v.Shaped G) {m : Instance n}
    {fs : List (Field n)} (hc : List.Forall₂ (fun f v => v.conforms G f.kind = true) fs vs)
    (hm : m.Fits G) (hfs : fs ⊆ (G m.schema).fields) :
    ∀ a ∈ nodesFields G m fs vs, a.Fitting G := by
  cases vs with
  | nil => cases fs <;> exact List.forall_mem_nil _
  | cons v vs =>
    cases fs with
    | nil => exact List.forall_mem_nil _
    | cons f fs =>
      rw [List.forall₂_cons] at hc
      rw [List.forall_mem_cons] at hv
      rw [List.cons_subset] at hfs
      rw [nodesFields, List.forall_mem_append]
      exact ⟨Shaped.fitting hv.1 ⟨hc.1, hm, f, hfs.1, List.Subset.refl _⟩,
        fittingFields hv.2 hc.2 hm hfs.2⟩

end

end Value

/-- **Every node of a shaped message** holds what its kind asks for. -/
theorem Instance.Shaped.fitting {m : Instance n} (h : m.Shaped G) :
    ∀ a ∈ m.nodes G, a.Fitting G :=
  have ⟨hfits, hvalues⟩ := shaped_iff.mp h
  Value.fittingFields hvalues hfits hfits (List.Subset.refl _)

/-- An integer holds a number. -/
theorem Scalar.exists_toInt? {v : Scalar} (h : v.kind.isInteger = true) :
    ∃ k, v.toInt? = some k := by
  cases v <;> first | exact ⟨_, rfl⟩ | cases h

/-- An integer in the place of a field is a count. -/
theorem Schema.exists_count? {S : Schema n} {values : List (Value n)} {c : String} {i : Nat}
    {w : Scalar} (hi : S.index? c = some i) (hv : values[i]? = some (.scalar w))
    (hw : w.kind.isInteger = true) : ∃ k, S.count? values c = some k := by
  obtain ⟨k, hk⟩ := Scalar.exists_toInt? hw
  refine ⟨k, ?_⟩
  rw [Schema.count?, hi, Option.bind_some, hv]
  exact hk

/-- **Every counted extent finds its count** in a message that fits its schema. -/
theorem Instance.Fits.exists_count {m : Instance n} (h : m.Fits G) {f : Field n}
    (hf : f ∈ (G m.schema).fields) {c : String} (hc : .counted c ∈ f.kind.extents) :
    ∃ k, (G m.schema).count? m.values c = some k := by
  obtain ⟨i, g, p, hi, hg, hk, hp⟩ := Schema.exists_count_field hf hc
  obtain ⟨v, hvi, hv⟩ := exists_getElem?_of_forall₂ h hg
  rw [hk] at hv
  cases v with
  | scalar w =>
    have hw : w.kind = p := beq_iff_eq.mp hv
    exact Schema.exists_count? hi hvi (hw ▸ hp)
  | _ => cases hv

/-! ## The errors that are left -/

/-- **Why a node of a shaped message is refused:** a counted array has not as many elements as its
count, or its count is negative; a text is too long, or holds a terminator. -/
inductive Node.Refused (G : Catalog n) (a : Node n) : WireError → Prop
  | length {element : Kind n} {c : String} {items : List (Value n)} {k : Nat}
      (hkind : a.kind = .array element (.counted c)) (hvalue : a.value = .array items)
      (hcount : (G a.around.schema).count? a.around.values c = some (k : Int))
      (hne : items.length ≠ k) : Refused G a (.lengthMismatch a.field k items.length)
  | negative {element : Kind n} {c : String} {items : List (Value n)} {k : Int} {offset : Nat}
      (hkind : a.kind = .array element (.counted c)) (hvalue : a.value = .array items)
      (hcount : (G a.around.schema).count? a.around.values c = some k) (hneg : k < 0) :
      Refused G a (.invalidLength .array k offset)
  | long {s : String} {offset : Nat} (hkind : a.kind = .primitive .text)
      (hvalue : a.value = .scalar (.text s)) (hlong : 2 ^ 31 ≤ (utf8 s).length + 1) :
      Refused G a (.invalidLength .text (utf8 s).length offset)
  | terminated {s : String} {offset : Nat} (hkind : a.kind = .primitive .text)
      (hvalue : a.value = .scalar (.text s)) (hnul : terminator ∈ utf8 s) :
      Refused G a (.embeddedNul offset)

namespace Node

variable {a : Node n} {e e' : Encoder} {err : WireError}

/-- What fits is of its kind. -/
theorem Fitting.not_misshapen (ha : a.Fitting G) : ¬ a.Misshapen G := by
  obtain ⟨m, field, kind, v⟩ := a
  have hc := ha.conforms
  cases v with
  | scalar w =>
    cases kind with
    | primitive p => exact not_not_intro (beq_iff_eq.mp hc)
    | _ => cases hc
  | message u values =>
    cases kind with
    | message t => exact fun hs => Bool.eq_false_iff.mp hs hc
    | _ => cases hc
  | array items =>
    cases kind with
    | array element x => exact not_false
    | _ => cases hc

theorem Fitting.exists_count (ha : a.Fitting G) {element : Kind n} {c : String}
    (hk : a.kind = .array element (.counted c)) :
    ∃ k, (G a.around.schema).count? a.around.values c = some k := by
  obtain ⟨f, hf, hx⟩ := ha.declared
  rw [hk] at hx
  exact ha.around.exists_count hf (hx List.mem_cons_self)

/-- **The errors of a fitting node.** -/
theorem Fitting.refused (ha : a.Fitting G) (he : e.Open) (h : a.write G e = .error err e') :
    a.Refused G err := by
  obtain ⟨hoffends, -⟩ := offends_of_write_eq_error he (fun _ _ hk => ha.exists_count hk) h
  cases hoffends with
  | shape hs => exact absurd hs ha.not_misshapen
  | negative hkind hvalue hcount hneg => exact .negative hkind hvalue hcount hneg
  | @length element x items k hkind hvalue hcount hne =>
    cases x with
    | fixed size =>
      have hc := ha.conforms
      rw [hkind, hvalue] at hc
      have hl : items.length = size.toNat := (Value.conforms_array_iff.mp hc).1 size rfl
      exact absurd (hl.trans hcount.symm) hne
    | counted c => exact .length hkind hvalue hcount hne
  | terminated hkind hvalue hsplit hfirst =>
    exact .terminated hkind hvalue (hsplit ▸ List.mem_append_right _ List.mem_cons_self)
  | long hkind hvalue _ hlong => exact .long hkind hvalue hlong

end Node

/-! ## Messages that have been made -/

/-- **A message that has been made** fits its schema, and so does every message inside. When it
cannot be encoded, that is for a counted array whose length is not its count, for a count below
zero, or for a text that is too long or holds a terminator. -/
theorem Made.shaped_and_refused {m : Instance n} (h : Made G m) :
    (∀ u ∈ m.instances,
      List.Forall₂ (fun f v => v.conforms G f.kind = true) (G u.schema).fields u.values) ∧
    ∀ err, m.toBytes G = .error err → ∃ a ∈ m.nodes G, a.Refused G err := by
  refine ⟨h.shaped, fun err herr => ?_⟩
  obtain ⟨before, a, after, has, -, e, ha⟩ := Instance.exists_of_toBytes_eq_error herr
  have hmem : a ∈ m.nodes G := has ▸ List.mem_append_right _ List.mem_cons_self
  exact ⟨a, hmem, (h.shaped.fitting a hmem).refused (Encoder.open_new_memory.put _) ha⟩

/-- Five rows are announced, and there are none. -/
theorem shaped_and_refused_tables :
    Made Instance.tables
        ⟨.last 0, [.scalar (.int32 5), .scalar (.int32 0), .array []]⟩ ∧
      ∃ a ∈ Instance.nodes Instance.tables
          ⟨.last 0, [.scalar (.int32 5), .scalar (.int32 0), .array []]⟩,
        a.Refused Instance.tables (.lengthMismatch "cells" 5 0) := by
  have hnew : Instance.tables.new 0 =
      .ok ⟨.last 0, [.scalar (.int32 0), .scalar (.int32 0), .array []]⟩ := by
    rw [Catalog.new, Catalog.defaultBelow]
    rfl
  have hmade : Made Instance.tables
      ⟨.last 0, [.scalar (.int32 5), .scalar (.int32 0), .array []]⟩ :=
    .edited (.new hnew) (.set "rows" (.scalar (.int32 5))) (List.forall_mem_nil _)
  exact ⟨hmade, hmade.shaped_and_refused.2 _ rfl⟩

end MessageWire
