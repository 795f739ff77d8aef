import Mathlib.Data.List.Forall2
import MessageWire.Proofs.Schema.Seed

/-!
# What the member hash is fed

The bytes that describe a list of fields need no marks between them. A text and a row of dimensions
begin with their length, as long as it fits into a byte. A nested message has no type name, but the
number of its dimensions cannot be taken for the length of one: behind it there stands a mode, and
no name begins with such a byte.

* `utf8_injective`, `repr_injective`, `Primitive.name_injective`: texts by their bytes, numbers by
  their digits, primitive kinds by their type names;
* `Extent.Brief`, `Field.Brief`: names and rows of dimensions whose length fits into a byte;
* `MemberHash.text_append_inj`, `MemberHash.dimensions_append_inj`: what is split off the front;
* `MemberHash.name_append_ne`: a type name is no row of dimensions;
* `SameLeaf`, `Field.Resembles`: fields that differ in nothing but the schemas of nested messages,
  `MemberHash.field_append_inj`;
* **`MemberHash.stream_unambiguous`**.
-/

namespace MessageWire

/-! ## Texts -/

theorem utf8_injective : Function.Injective utf8 := by
  intro s t h
  apply Option.some.inj
  rw [← ofUtf8?_utf8, h, ofUtf8?_utf8]

/-- A number is told by its digits. -/
theorem repr_injective : Function.Injective Nat.repr := by
  intro a b h
  rw [Nat.repr_eq_ofList_toDigits, Nat.repr_eq_ofList_toDigits] at h
  have hdigits := congrArg (Nat.ofDigitChars 10 · 0) (String.ofList_injective h)
  simpa only [Nat.ofDigitChars_ten_toDigits] using hdigits

/-- A number takes no more than four bytes for a digit. -/
theorem length_utf8_repr_le (k n : Nat) (h : n < 10 ^ (k + 1)) :
    (utf8 n.repr).length ≤ 4 * (k + 1) := by
  show n.repr.utf8ByteSize ≤ 4 * (k + 1)
  induction k generalizing n with
  | zero =>
    rw [Nat.repr_of_lt h, String.utf8ByteSize_singleton]
    exact Char.utf8Size_le_four _
  | succ k ih =>
    by_cases hn : n < 10
    · rw [Nat.repr_of_lt hn, String.utf8ByteSize_singleton]
      have := Char.utf8Size_le_four n.digitChar
      omega
    · rw [Nat.repr_of_ge (by omega), String.utf8ByteSize_append, String.utf8ByteSize_singleton]
      have hinit := ih (n / 10) (by omega)
      have := Char.utf8Size_le_four (n % 10).digitChar
      omega

/-! ## Lengths that fit into a byte -/

/-- The name of a counting field has less than 256 bytes. -/
def Extent.Brief : Extent → Prop
  | .fixed _ => True
  | .counted field => (utf8 field).length < 256

instance : DecidablePred Extent.Brief
  | .fixed _ => inferInstanceAs (Decidable True)
  | .counted field => inferInstanceAs (Decidable ((utf8 field).length < 256))

theorem Extent.Brief.length_lt {x : Extent} (h : x.Brief) : (utf8 x.text).length < 256 := by
  cases x with
  | counted field => exact h
  | fixed size =>
    have hsize := size.toNat_lt
    have := length_utf8_repr_le 19 size.toNat (by omega)
    exact Nat.lt_of_le_of_lt this (by decide)

/-- **The names in a field and the number of its dimensions** are less than 256 bytes and 256. -/
structure Field.Brief {n : Nat} (f : Field n) : Prop where
  name : (utf8 f.name).length < 256
  dimensions : f.kind.extents.length < 256
  counts : ∀ x ∈ f.kind.extents, x.Brief

instance {n : Nat} : DecidablePred (Field.Brief (n := n)) := fun f =>
  decidable_of_iff ((utf8 f.name).length < 256 ∧ f.kind.extents.length < 256 ∧
      ∀ x ∈ f.kind.extents, x.Brief)
    ⟨fun ⟨name, dimensions, counts⟩ => ⟨name, dimensions, counts⟩,
      fun h => ⟨h.name, h.dimensions, h.counts⟩⟩

/-! ## Fields that look the same -/

variable {n m : Nat}

/-- The innermost kinds are the same primitive kind, or messages both. -/
inductive SameLeaf (k : Kind n) (l : Kind m) : Prop
  | primitive (p : Primitive) : k.leaf = .primitive p → l.leaf = .primitive p → SameLeaf k l
  | message (s : Fin n) (t : Fin m) : k.leaf = .message s → l.leaf = .message t → SameLeaf k l

/-- **Fields that differ at most in the schemas of nested messages.** -/
structure Field.Resembles (f : Field n) (g : Field m) : Prop where
  name : f.name = g.name
  leaf : SameLeaf f.kind g.kind
  extents : f.kind.extents = g.kind.extents

theorem Kind.leaf_eq (k : Kind n) : (∃ p, k.leaf = .primitive p) ∨ ∃ s, k.leaf = .message s := by
  induction k with
  | primitive p => exact Or.inl ⟨p, rfl⟩
  | message s => exact Or.inr ⟨s, rfl⟩
  | array element x ih => exact ih

theorem Primitive.length_utf8_name_lt (p : Primitive) : (utf8 p.name).length < 256 := by
  cases p <;> decide

theorem Primitive.name_injective : Function.Injective Primitive.name := by
  intro p q
  cases p <;> cases q <;> decide

namespace MemberHash

variable {us vs : Bytes}

/-! ## Splitting off the front -/

theorem ofNat_inj {a b : Nat} (ha : a < 256) (hb : b < 256) (h : UInt8.ofNat a = UInt8.ofNat b) :
    a = b := by
  have := congrArg UInt8.toNat h
  rwa [UInt8.toNat_ofNat_of_lt' ha, UInt8.toNat_ofNat_of_lt' hb] at this

/-- **A text** is split off what follows it. -/
theorem text_append_inj {s t : String} (hs : (utf8 s).length < 256) (ht : (utf8 t).length < 256)
    (h : text s ++ us = text t ++ vs) : s = t ∧ us = vs := by
  obtain ⟨hl, h⟩ := List.cons.inj h
  obtain ⟨hst, huv⟩ := List.append_inj h (ofNat_inj hs ht hl)
  exact ⟨utf8_injective hst, huv⟩

theorem eq_of_mode {x y : Extent} (hm : mode x = mode y) (ht : x.text = y.text) : x = y := by
  cases x with
  | fixed size =>
    cases y with
    | fixed size' => exact congrArg _ (UInt64.toNat_inj.mp (repr_injective ht))
    | counted field => cases hm
  | counted field =>
    cases y with
    | fixed size => cases hm
    | counted field' => exact congrArg _ ht

theorem extent_append_inj {x y : Extent} (hx : x.Brief) (hy : y.Brief)
    (h : extent x ++ us = extent y ++ vs) : x = y ∧ us = vs := by
  rw [extent_eq, extent_eq] at h
  obtain ⟨hm, h⟩ := List.cons.inj h
  obtain ⟨ht, huv⟩ := text_append_inj hx.length_lt hy.length_lt h
  exact ⟨eq_of_mode hm ht, huv⟩

/-- As many dimensions as one knows. -/
theorem extents_append_inj {xs ys : List Extent} (hx : ∀ x ∈ xs, x.Brief) (hy : ∀ y ∈ ys, y.Brief)
    (hl : xs.length = ys.length) (h : xs.flatMap extent ++ us = ys.flatMap extent ++ vs) :
    xs = ys ∧ us = vs := by
  induction xs generalizing ys with
  | nil =>
    obtain rfl := List.length_eq_zero_iff.mp hl.symm
    exact ⟨rfl, h⟩
  | cons x xs ih =>
    obtain ⟨y, ys, rfl⟩ := List.exists_cons_of_length_eq_add_one hl.symm
    rw [List.forall_mem_cons] at hx hy
    rw [List.flatMap_cons, List.flatMap_cons, List.append_assoc, List.append_assoc] at h
    obtain ⟨rfl, hrest⟩ := extent_append_inj hx.1 hy.1 h
    obtain ⟨rfl, huv⟩ := ih hx.2 hy.2 (Nat.succ.inj hl) hrest
    exact ⟨rfl, huv⟩

/-- The bytes of a row of dimensions: their number and each of them. -/
def dimensions (xs : List Extent) : Bytes := UInt8.ofNat xs.length :: xs.flatMap extent

/-- **A row of dimensions** is split off what follows it. -/
theorem dimensions_append_inj {xs ys : List Extent} (hx : ∀ x ∈ xs, x.Brief)
    (hy : ∀ y ∈ ys, y.Brief) (hxl : xs.length < 256) (hyl : ys.length < 256)
    (h : dimensions xs ++ us = dimensions ys ++ vs) : xs = ys ∧ us = vs := by
  obtain ⟨hl, h⟩ := List.cons.inj h
  exact extents_append_inj hx hy (ofNat_inj hxl hyl hl) h

/-! ## One byte ahead -/

/-- The length of a type name is not zero, and no mode stands behind it. -/
theorem exists_text_name (p : Primitive) :
    ∃ k c rest, text p.name = k :: c :: rest ∧ k ≠ 0 ∧ ∀ x, mode x ≠ c := by
  have hmode {c : UInt8} (h0 : 0 ≠ c) (h1 : 1 ≠ c) (x : Extent) : mode x ≠ c := by
    cases x
    · exact h0
    · exact h1
  cases p <;> exact ⟨_, _, _, rfl, by decide, hmode (by decide) (by decide)⟩

/-- **A type name is no row of dimensions.** Either there are none, and their number is zero, or a
mode stands where the name begins. -/
theorem name_append_ne (p : Primitive) (xs : List Extent) :
    text p.name ++ us ≠ dimensions xs ++ vs := by
  obtain ⟨k, c, rest, hp, hk, hc⟩ := exists_text_name p
  rw [hp]
  intro h
  cases xs with
  | nil => exact hk (List.cons.inj h).1
  | cons x xs =>
    have htail := (List.cons.inj h).2
    rw [List.flatMap_cons, extent_eq] at htail
    exact hc x (List.cons.inj htail).1.symm

/-- **The type name of a primitive kind** is split off the dimensions behind it, if it is there. -/
theorem leaf_append_inj {k : Kind n} {l : Kind m} {xs ys : List Extent}
    (h : leaf k.leaf ++ (dimensions xs ++ us) = leaf l.leaf ++ (dimensions ys ++ vs)) :
    SameLeaf k l ∧ dimensions xs ++ us = dimensions ys ++ vs := by
  obtain ⟨p, hp⟩ | ⟨s, hs⟩ := k.leaf_eq <;> obtain ⟨q, hq⟩ | ⟨t, ht⟩ := l.leaf_eq
  · rw [hp, hq] at h
    obtain ⟨hname, hrest⟩ := text_append_inj p.length_utf8_name_lt q.length_utf8_name_lt h
    obtain rfl := Primitive.name_injective hname
    exact ⟨.primitive p hp hq, hrest⟩
  · rw [hp, ht] at h
    exact absurd h (name_append_ne p ys)
  · rw [hs, hq] at h
    exact absurd h.symm (name_append_ne q xs)
  · rw [hs, ht] at h
    exact ⟨.message s t hs ht, h⟩

/-! ## Fields -/

theorem field_append_eq (f : Field n) (us : Bytes) :
    field f ++ us = text f.name ++ (leaf f.kind.leaf ++ (dimensions f.kind.extents ++ us)) := by
  rw [field_eq, List.append_assoc, List.append_assoc]
  rfl

/-- **A field** is split off what follows it. -/
theorem field_append_inj {f : Field n} {g : Field m} (hf : f.Brief) (hg : g.Brief)
    (h : field f ++ us = field g ++ vs) : f.Resembles g ∧ us = vs := by
  rw [field_append_eq, field_append_eq] at h
  obtain ⟨hname, h⟩ := text_append_inj hf.name hg.name h
  obtain ⟨hleaf, h⟩ := leaf_append_inj h
  obtain ⟨hextents, huv⟩ :=
    dimensions_append_inj hf.counts hg.counts hf.dimensions hg.dimensions h
  exact ⟨⟨hname, hleaf, hextents⟩, huv⟩

theorem field_congr {f : Field n} {g : Field m} (h : f.Resembles g) : field f = field g := by
  have hleaf : leaf f.kind.leaf = leaf g.kind.leaf := by
    obtain ⟨p, hp, hq⟩ | ⟨s, t, hs, ht⟩ := h.leaf
    · rw [hp, hq]
      rfl
    · rw [hs, ht]
      rfl
  rw [field_eq, field_eq, h.name, hleaf, h.extents]

theorem stream_cons (f : Field n) (fs : List (Field n)) :
    stream (f :: fs) = field f ++ stream fs := List.flatMap_cons

/-- Fields that look the same are described by the same bytes. -/
theorem stream_congr {fs : List (Field n)} {gs : List (Field m)}
    (h : List.Forall₂ Field.Resembles fs gs) : stream fs = stream gs := by
  induction h with
  | nil => rfl
  | cons hfg _ ih => rw [stream_cons, stream_cons, field_congr hfg, ih]

/-- **Fields that are described by the same bytes look the same.** -/
theorem resembles_of_stream_eq {fs : List (Field n)} {gs : List (Field m)}
    (hf : ∀ f ∈ fs, f.Brief) (hg : ∀ g ∈ gs, g.Brief) (h : stream fs = stream gs) :
    List.Forall₂ Field.Resembles fs gs := by
  induction fs generalizing gs with
  | nil =>
    cases gs with
    | nil => exact .nil
    | cons g gs =>
      rw [stream_cons] at h
      cases h
  | cons f fs ih =>
    cases gs with
    | nil =>
      rw [stream_cons] at h
      cases h
    | cons g gs =>
      rw [List.forall_mem_cons] at hf hg
      rw [stream_cons, stream_cons] at h
      obtain ⟨hfg, h⟩ := field_append_inj hf.1 hg.1 h
      exact .cons hfg (ih hf.2 hg.2 h)

/-- **What the member hash is fed tells fields apart.** A seed is what the steps over the bytes of a
list of fields come to. If names and rows of dimensions are not too long, two lists have the same
bytes exactly if they have as many fields, and these have the same names, innermost kinds, but for
the schemas of messages, and dimensions. So lists that do not look the same have the same seed only
if the steps over different bytes come to the same value. -/
theorem stream_unambiguous {fs : List (Field n)} {gs : List (Field m)}
    (hf : ∀ f ∈ fs, f.Brief) (hg : ∀ g ∈ gs, g.Brief) :
    (seed fs = ((stream fs).foldl update start).toUInt64 ∧
      seed gs = ((stream gs).foldl update start).toUInt64) ∧
    (stream fs = stream gs ↔ List.Forall₂ Field.Resembles fs gs) ∧
    (¬ List.Forall₂ Field.Resembles fs gs → seed fs = seed gs →
      stream fs ≠ stream gs ∧ (stream fs).foldl update start = (stream gs).foldl update start) := by
  have hiff : stream fs = stream gs ↔ List.Forall₂ Field.Resembles fs gs :=
    ⟨resembles_of_stream_eq hf hg, stream_congr⟩
  exact ⟨⟨rfl, rfl⟩, hiff, fun hne hseed => ⟨mt hiff.mp hne, seed_inj.mp hseed⟩⟩

/-- A number of layers, and messages of the schema `s` in four dimensions. -/
def boxes {n : Nat} (s : Fin n) : List (Field n) :=
  [⟨"layers", .primitive .int32⟩,
    ⟨"box", .ofExtents (.message s) [.counted "layers", .fixed 3, .fixed 3, .fixed 256]⟩]

/-- The number of dimensions of a box is the length of the name of a byte. The bytes part behind it,
but they are the same for messages of another schema. -/
theorem stream_boxes :
    (∀ f ∈ boxes (0 : Fin 1), f.Brief) ∧ (∀ g ∈ boxes (1 : Fin 2), g.Brief) ∧
    (∀ g ∈ [single "layers" .int32, single "box" .byte], g.Brief) ∧
    stream (boxes (0 : Fin 1)) = stream (boxes (1 : Fin 2)) ∧
    (stream (boxes (0 : Fin 1))).take 21 =
      (stream [single "layers" .int32, single "box" .byte]).take 21 ∧
    stream (boxes (0 : Fin 1)) ≠ stream [single "layers" .int32, single "box" .byte] := by
  have hbox : ∀ f ∈ boxes (0 : Fin 1), f.Brief := by decide
  have hother : ∀ g ∈ boxes (1 : Fin 2), g.Brief := by decide
  have hbyte : ∀ g ∈ [single "layers" .int32, single "box" .byte], g.Brief := by decide
  have hlayers : Field.Resembles (n := 1) (m := 2) ⟨"layers", .primitive .int32⟩
      ⟨"layers", .primitive .int32⟩ := ⟨rfl, .primitive .int32 rfl rfl, rfl⟩
  refine ⟨hbox, hother, hbyte, ?_, by decide, fun h => ?_⟩
  · exact (stream_unambiguous hbox hother).2.1.mpr
      (.cons hlayers (.cons ⟨rfl, .message 0 1 rfl rfl, rfl⟩ .nil))
  · obtain _ | ⟨-, htail⟩ := (stream_unambiguous hbox hbyte).2.1.mp h
    obtain _ | ⟨hfield, -⟩ := htail
    exact absurd hfield.extents (by decide)

end MemberHash

end MessageWire
