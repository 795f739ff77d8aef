import MessageWire.Proofs.Instance.Encode

/-!
# What stops an encoder

The first node that cannot be written stops the encoder, with an error that says what is wrong with
it and where.

* `Node.Misshapen`, `Node.Offends`: what is wrong with a node, and the error for it;
* `Node.Offends.write_eq`, `Node.exists_offends`, **`Node.offends_of_write_eq_error`**: each such
  error is the encoder's, there is one for every node that cannot be written, and there are no others;
* `Write.exists_of_forM_eq_error`, `Write.forM_stops`, `Instance.exists_of_toBytes_eq_error`: rows of
  nodes and whole messages.
-/

namespace MessageWire

variable {n : Nat} {G : Catalog n}

/-! ## What is wrong with a node -/

/-- The value is not of the kind that is expected: neither the right scalar, nor a message of a
compatible schema, nor an array. -/
def Node.Misshapen (G : Catalog n) (a : Node n) : Prop :=
  match a.kind, a.value with
  | .primitive p, .scalar v => v.kind ≠ p
  | .message t, .message u _ => G.compatible u t = false
  | .array _ _, .array _ => False
  | _, _ => True

/-- **What is wrong with a node that an encoder reaches behind `held` bytes,** and the error for it:
the value is not of the kind; an array has a negative count, or has not as many elements as it
should; a text holds a terminator, or is too long. -/
inductive Node.Offends (G : Catalog n) (a : Node n) (held : Nat) : WireError → Prop
  | shape (h : a.Misshapen G) : Offends G a held (.typeMismatch a.field (G.kindText a.kind))
  | negative {element : Kind n} {c : String} {items : List (Value n)} {k : Int}
      (hkind : a.kind = .array element (.counted c)) (hvalue : a.value = .array items)
      (hcount : (G a.around.schema).count? a.around.values c = some k) (hneg : k < 0) :
      Offends G a held (.invalidLength .array k held)
  | length {element : Kind n} {x : Extent} {items : List (Value n)} {k : Nat}
      (hkind : a.kind = .array element x) (hvalue : a.value = .array items)
      (hcount : x.Counts (G a.around.schema) a.around.values k) (hne : items.length ≠ k) :
      Offends G a held (.lengthMismatch a.field k items.length)
  | terminated {s : String} {before after : Bytes} (hkind : a.kind = .primitive .text)
      (hvalue : a.value = .scalar (.text s)) (hsplit : utf8 s = before ++ terminator :: after)
      (hfirst : terminator ∉ before) :
      Offends G a held (.embeddedNul (held + textLengthSize + before.length))
  | long {s : String} (hkind : a.kind = .primitive .text) (hvalue : a.value = .scalar (.text s))
      (hnul : terminator ∉ utf8 s) (hlong : 2 ^ 31 ≤ (utf8 s).length + 1) :
      Offends G a held (.invalidLength .text (utf8 s).length held)

/-! ## The error of a node -/

/-- A text is split at its first terminator. -/
theorem findIdx?_terminator_append {before : Bytes} (h : terminator ∉ before) (after : Bytes) :
    (before ++ terminator :: after).findIdx? (· == terminator) = some before.length := by
  rw [List.findIdx?_append, findIdx?_terminator_eq_none_iff.mpr h, List.findIdx?_cons]
  simp

namespace Node

variable {a : Node n} {e : Encoder} {err : WireError} {held : Nat}

/-- A value that is not of its kind is refused as such. -/
theorem Misshapen.write_eq (h : a.Misshapen G) :
    a.write G e = .error (.typeMismatch a.field (G.kindText a.kind)) e := by
  obtain ⟨m, field, kind, v⟩ := a
  cases v with
  | scalar w =>
    cases kind with
    | primitive p =>
      rw [write]
      exact congrFun (if_neg h) e
    | _ => rfl
  | message u values =>
    cases kind with
    | message t =>
      rw [write]
      exact congrFun (if_neg (Bool.eq_false_iff.mp h)) e
    | _ => rfl
  | array items =>
    cases kind with
    | array element x => exact h.elim
    | _ => rfl

theorem write_text (m : Instance n) (field : String) (s : String) :
    write G ⟨m, field, .primitive .text, .scalar (.text s)⟩ e = Write.text s e := by
  rw [write]
  exact congrFun (if_pos rfl) e

/-- **The error of a node.** Nothing of it is written. -/
theorem Offends.write_eq (h : a.Offends G e.position err) : a.write G e = .error err e := by
  obtain ⟨m, field, kind, v⟩ := a
  cases h with
  | shape h => exact h.write_eq
  | negative hkind hvalue hcount hneg =>
    cases hkind
    cases hvalue
    rw [write]
    exact bind_error ((Write.extent_of_count? hcount field e).trans (if_pos hneg))
  | length hkind hvalue hcount hne =>
    cases hkind
    cases hvalue
    rw [write]
    exact (bind_ok (Write.extent_of_counts hcount field e)).trans (congrFun (if_pos hne) e)
  | terminated hkind hvalue hsplit hfirst =>
    cases hkind
    cases hvalue
    rw [write_text, Write.text_apply, hsplit, findIdx?_terminator_append hfirst]
  | long hkind hvalue hnul hlong =>
    cases hkind
    cases hvalue
    rw [write_text, Write.text_apply, findIdx?_terminator_eq_none_iff.mpr hnul]
    exact if_pos hlong

/-- **Something is wrong with every node that cannot be written,** once its count is found. -/
theorem exists_offends (held : Nat)
    (hcount : ∀ element c, a.kind = .array element (.counted c) →
      ∃ k, (G a.around.schema).count? a.around.values c = some k)
    (ha : ¬ a.Sound G) : ∃ err, a.Offends G held err := by
  obtain ⟨m, field, kind, v⟩ := a
  cases v with
  | scalar w =>
    cases kind with
    | primitive p =>
      by_cases hp : w.kind = p
      · cases w with
        | text s =>
          subst hp
          by_cases hnul : terminator ∈ utf8 s
          · obtain ⟨before, after, hsplit, hfirst⟩ := List.eq_append_cons_of_mem hnul
            exact ⟨_, .terminated rfl rfl hsplit hfirst⟩
          · have hlong : 2 ^ 31 ≤ (utf8 s).length + 1 := by
              by_contra hl
              exact ha ⟨rfl, hnul, by omega⟩
            exact ⟨_, .long rfl rfl hnul hlong⟩
        | _ => exact absurd ⟨hp, trivial⟩ ha
      · exact ⟨_, .shape hp⟩
    | _ => exact ⟨_, .shape trivial⟩
  | message u values =>
    cases kind with
    | message t => exact ⟨_, .shape (Bool.eq_false_iff.mpr ha)⟩
    | _ => exact ⟨_, .shape trivial⟩
  | array items =>
    cases kind with
    | array element x =>
      cases x with
      | fixed size => exact ⟨_, .length rfl rfl rfl ha⟩
      | counted c =>
        obtain ⟨k, hk⟩ := hcount element c rfl
        by_cases hneg : k < 0
        · exact ⟨_, .negative rfl rfl hk hneg⟩
        · obtain ⟨k, rfl⟩ := Int.eq_ofNat_of_zero_le (Int.not_lt.mp hneg)
          refine ⟨_, .length rfl rfl hk ?_⟩
          rintro rfl
          exact ha hk
    | _ => exact ⟨_, .shape trivial⟩

/-- **The error of a node whose count is found** is one of these, and nothing is written. -/
theorem offends_of_write_eq_error {e' : Encoder} (he : e.Open)
    (hcount : ∀ element c, a.kind = .array element (.counted c) →
      ∃ k, (G a.around.schema).count? a.around.values c = some k)
    (h : a.write G e = .error err e') : a.Offends G e.position err ∧ e' = e := by
  have hsound : ¬ a.Sound G := fun ha => by
    rw [write_eq he ha] at h
    cases h
  obtain ⟨err', ha⟩ := a.exists_offends e.position hcount hsound
  rw [ha.write_eq] at h
  cases h
  exact ⟨ha, rfl⟩

end Node

/-! ## Where an encoder stops -/

/-- **The first node that is not sound** stops the encoder, behind the bytes of those before. -/
theorem Write.exists_of_forM_eq_error {e e' : Encoder} (he : e.Open) {as : List (Node n)}
    {err : WireError} (h : forM as (Node.write G) e = .error err e') :
    ∃ before a after, as = before ++ a :: after ∧ (∀ b ∈ before, b.Sound G) ∧
      a.write G (e.put (wire (before.flatMap Node.cells))) = .error err e' := by
  induction as generalizing e with
  | nil => cases h
  | cons a as ih =>
    rw [List.forM_cons] at h
    by_cases ha : a.Sound G
    · rw [bind_ok (Node.write_eq he ha)] at h
      obtain ⟨before, b, after, rfl, hbefore, hb⟩ := ih (he.put _) h
      refine ⟨a :: before, b, after, rfl, List.forall_mem_cons.mpr ⟨ha, hbefore⟩, ?_⟩
      rwa [Encoder.put_put, ← wire_append, ← List.flatMap_cons] at hb
    · obtain ⟨err', hw⟩ := Node.write_error (e := e) ha
      rw [bind_error hw] at h
      cases h
      refine ⟨[], a, as, rfl, List.forall_mem_nil _, ?_⟩
      rwa [List.flatMap_nil, wire, List.map_nil, Encoder.put_nil]

/-- A node that is refused stops the encoder behind sound ones. -/
theorem Write.forM_stops {e e' : Encoder} (he : e.Open) {before : List (Node n)} {a : Node n}
    {err : WireError} (hbefore : ∀ b ∈ before, b.Sound G)
    (ha : a.write G (e.put (wire (before.flatMap Node.cells))) = .error err e')
    (after : List (Node n)) :
    forM (before ++ a :: after) (Node.write G) e = .error err e' := by
  rw [List.forM_append, bind_ok (forM_eq he hbefore), List.forM_cons]
  exact bind_error ha

/-- The error of a message is that of its first node that is not sound. -/
theorem Instance.exists_of_toBytes_eq_error {m : Instance n} {err : WireError}
    (h : m.toBytes G = .error err) :
    ∃ before a after, m.nodes G = before ++ a :: after ∧ (∀ b ∈ before, b.Sound G) ∧
      ∃ e, a.write G ((Encoder.new .memory).put
        ((G.fingerprint m.schema).toBytes ++ wire (before.flatMap Node.cells))) = .error err e := by
  have hm : ¬ m.WellFormed G := fun hm => by
    rw [toBytes_eq hm] at h
    cases h
  have ho := Encoder.open_new_memory.put (G.fingerprint m.schema).toBytes
  obtain ⟨err', e, hf⟩ := Write.forM_error ho hm
  rw [toBytes_eq_error hf] at h
  cases h
  obtain ⟨before, a, after, has, hbefore, ha⟩ := Write.exists_of_forM_eq_error ho hf
  rw [Encoder.put_put] at ha
  exact ⟨before, a, after, has, hbefore, e, ha⟩

end MessageWire
