import MessageWire.Proofs.Wire.Read

/-!
# Codes without ends

No wire form goes on to another one, so what is written can be told from what follows it.

* `PrefixFree`: wire forms of which none is the beginning of another, `PrefixFree.map`,
  `PrefixFree.replicate`;
* **`PrefixFree.of_reads`**: what can be read is prefix-free, **`prefixFree_scalar`**.
-/

namespace MessageWire

variable {α β : Type}

/-- **The wire forms of the `a` with `P a` are prefix-free:** what begins with two of them begins
with one. -/
def PrefixFree (P : α → Prop) (cells : α → List Cell) : Prop :=
  ∀ a b us vs, P a → P b → wire (cells a) ++ us = wire (cells b) ++ vs → a = b

namespace PrefixFree

variable {P : α → Prop} {cells : α → List Cell}

/-- What follows is the same as well. -/
theorem append_inj (h : PrefixFree P cells) {a b : α} {us vs : Bytes} (ha : P a) (hb : P b)
    (e : wire (cells a) ++ us = wire (cells b) ++ vs) : a = b ∧ us = vs := by
  obtain rfl := h a b us vs ha hb e
  exact ⟨rfl, List.append_cancel_left e⟩

/-- Values of another form. -/
theorem map (h : PrefixFree P cells) {f : α → β} {Q : β → Prop} {cells' : β → List Cell}
    (hQ : ∀ b, Q b → ∃ a, P a ∧ b = f a) (hc : ∀ a, cells' (f a) = cells a) :
    PrefixFree Q cells' := by
  intro b b' us vs hb hb' e
  obtain ⟨a, ha, rfl⟩ := hQ b hb
  obtain ⟨a', ha', rfl⟩ := hQ b' hb'
  rw [hc, hc] at e
  exact congrArg f (h a a' us vs ha ha' e)

/-- **As many of them as one knows,** one after the other. -/
theorem replicate (h : PrefixFree P cells) (k : Nat) :
    PrefixFree (fun as : List α => as.length = k ∧ ∀ a ∈ as, P a)
      fun as : List α => as.flatMap cells := by
  induction k with
  | zero =>
    intro as bs us vs ha hb _
    rw [List.length_eq_zero_iff.mp ha.1, List.length_eq_zero_iff.mp hb.1]
  | succ k ih =>
    intro as bs us vs ha hb e
    obtain ⟨a, as, rfl⟩ := List.exists_cons_of_length_eq_add_one ha.1
    obtain ⟨b, bs, rfl⟩ := List.exists_cons_of_length_eq_add_one hb.1
    simp only [List.length_cons, Nat.add_right_cancel_iff, List.forall_mem_cons] at ha hb
    simp only [List.flatMap_cons, wire_append, List.append_assoc] at e
    obtain ⟨rfl, htail⟩ := h.append_inj ha.2.1 hb.2.1 e
    rw [ih as bs us vs ⟨ha.1, ha.2.2⟩ ⟨hb.1, hb.2.2⟩ htail]

/-- **What can be read is prefix-free:** the reader comes to one answer. -/
theorem of_reads {act : Read α} {P : Limits → Nat → α → Prop} (h : Reads act cells P)
    (L : Limits) : PrefixFree (P L L.maxDepth.toNat) cells := by
  intro a b us vs ha hb e
  have hread {a : α} (us : Bytes) (ha : P L L.maxDepth.toNat a) :
      act ((Decoder.new (.memory []) L).facing (wire (cells a) ++ us)) = .ok a _ :=
    (h (.new (.memory []) L) _ a _).mpr ⟨ha, _, us, rfl, spells_wire _, rfl⟩
  have hsame := hread us ha
  rw [e, hread vs hb] at hsame
  cases hsame
  rfl

end PrefixFree

/-- **Scalars** of one kind. -/
theorem prefixFree_scalar (p : Primitive) (L : Limits) :
    PrefixFree (fun v => v.kind = p ∧ v.Writable ∧ v.Within L) Scalar.cells :=
  .of_reads (reads_scalar p) L

end MessageWire
