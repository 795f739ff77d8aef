import MessageWire.Instance.Edit
import MessageWire.Proofs.Wire.Action

/-!
# What an edit does

An edit that is not refused puts a conforming value in the place of one field; an array that is
counted takes its count with it. All that can be refused is refused before anything is replaced.

* `Scalar.ofCount?_eq_some_iff`: counts;
* `Instance.field_eq_ok_iff`: where a field stands;
* `Change.set_eq_ok_iff`, `Change.eq_of_set_eq_error`: a field replaced, or the message as it was;
* `Change.Replaced`, **`Change.setSequence_cases`**: an array replaced and counted, or the message
  as it was;
* `Instance.set_eq_ok_iff`, `Instance.setSequence_eq_ok`: the messages that come out.
-/

namespace MessageWire

variable {n : Nat} {G : Catalog n}

theorem exists_of_bind_eq_ok {α β ε : Type} {x : Except ε α} {f : α → Except ε β} {b : β}
    (h : (x >>= f) = .ok b) : ∃ a, x = .ok a ∧ f a = .ok b := by
  cases x with
  | ok a => exact ⟨a, rfl, h⟩
  | error e => cases h

/-- **A count** is the integer of the kind of its field that holds the number, if there is one. -/
theorem Scalar.ofCount?_eq_some_iff {p : Primitive} {k : Nat} {v : Scalar} :
    ofCount? p k = some v ↔ v.kind = p ∧ v.toInt? = some (k : Int) := by
  constructor
  · intro h
    cases p <;> simp only [ofCount?, Option.ite_none_right_eq_some, Option.some.injEq,
      reduceCtorEq] at h
    all_goals
      obtain ⟨hk, rfl⟩ := h
      refine ⟨rfl, congrArg some ?_⟩
    · exact Int8.toInt_ofNat_of_lt hk
    · exact Int16.toInt_ofNat_of_lt hk
    · exact Int32.toInt_ofNat_of_lt hk
    · exact Int64.toInt_ofNat_of_lt hk
    · exact congrArg Int.ofNat (UInt8.toNat_ofNat_of_lt hk)
  · rintro ⟨rfl, hv⟩
    cases v <;> simp only [toInt?, Option.some.injEq, reduceCtorEq] at hv
    case int8 w =>
      have hk : k < 2 ^ 7 := by have := w.toInt_lt; omega
      rw [kind, ofCount?, if_pos hk, Int8.toInt_inj.mp ((Int8.toInt_ofNat_of_lt hk).trans hv.symm)]
    case int16 w =>
      have hk : k < 2 ^ 15 := by have := w.toInt_lt; omega
      rw [kind, ofCount?, if_pos hk,
        Int16.toInt_inj.mp ((Int16.toInt_ofNat_of_lt hk).trans hv.symm)]
    case int32 w =>
      have hk : k < 2 ^ 31 := by have := w.toInt_lt; omega
      rw [kind, ofCount?, if_pos hk,
        Int32.toInt_inj.mp ((Int32.toInt_ofNat_of_lt hk).trans hv.symm)]
    case int64 w =>
      have hk : k < 2 ^ 63 := by have := w.toInt_lt; omega
      rw [kind, ofCount?, if_pos hk,
        Int64.toInt_inj.mp ((Int64.toInt_ofNat_of_lt hk).trans hv.symm)]
    case byte w =>
      have hk : k < 2 ^ 8 := by have := w.toNat_lt; omega
      have hw : UInt8.ofNat k = w :=
        UInt8.toNat_inj.mp ((UInt8.toNat_ofNat_of_lt hk).trans (by omega))
      rw [kind, ofCount?, if_pos hk, hw]

/-- A count is of the kind of its field. -/
theorem Scalar.kind_of_ofCount? {p : Primitive} {k : Nat} {v : Scalar} (h : ofCount? p k = some v) :
    v.kind = p := (ofCount?_eq_some_iff.mp h).1

namespace Instance

variable {m m' : Instance n} {name : String}

theorem field_eq_ok_iff {i : Nat} {kind : Kind n} :
    m.field G name = .ok (i, kind) ↔ ∃ f, (G m.schema).index? name = some i ∧
      (G m.schema).fields[i]? = some f ∧ f.kind = kind := by
  rw [field]
  cases hi : (G m.schema).index? name with
  | none => simp
  | some j =>
    dsimp only
    cases hf : (G m.schema).fields[j]? with
    | none =>
      constructor
      · intro h
        cases h
      · rintro ⟨f, hj, h, -⟩
        cases hj
        rw [hf] at h
        cases h
    | some f =>
      constructor
      · intro h
        cases h
        exact ⟨f, rfl, hf, rfl⟩
      · rintro ⟨g, hj, h, rfl⟩
        cases hj
        rw [hf] at h
        cases h
        rfl

end Instance

/-! ## In place -/

namespace Change

variable {m m' : Instance n} {name : String} {err : WireError}

theorem outcome_eq_ok_iff {act : Change n Unit} : act.outcome m = .ok m' ↔ act m = .ok () m' := by
  rw [outcome]
  cases act m with
  | ok u m₁ => simp
  | error e m₁ => simp

/-- Finding a field changes nothing. -/
theorem field_eq_ok_iff {found : Nat × Kind n} :
    field G name m = .ok found m' ↔ m.field G name = .ok found ∧ m' = m := by
  rw [field]
  cases m.field G name with
  | ok found => simp [eq_comm]
  | error e => simp

theorem field_eq_error_iff :
    field G name m = .error err m' ↔ m.field G name = .error err ∧ m' = m := by
  rw [field]
  cases m.field G name with
  | ok found => simp
  | error e => simp [eq_comm]

/-- A field that is found is replaced if the value conforms to its kind. -/
theorem set_of_field {i : Nat} {kind : Kind n} (hf : m.field G name = .ok (i, kind))
    (v : Value n) : set G name v m =
      if v.conforms G kind then .ok () { m with values := m.values.set i v }
      else .error (Instance.mismatch G name kind) m := by
  rw [set, bind_ok (field_eq_ok_iff.mpr ⟨hf, rfl⟩)]
  dsimp only
  cases v.conforms G kind <;> rfl

/-- **A field is replaced by a value that conforms to its kind.** -/
theorem set_eq_ok_iff {v : Value n} :
    set G name v m = .ok () m' ↔ ∃ i kind, m.field G name = .ok (i, kind) ∧
      v.conforms G kind = true ∧ m' = { m with values := m.values.set i v } := by
  constructor
  · intro h
    obtain ⟨⟨i, kind⟩, m₁, hf, -⟩ := bind_eq_ok_iff.mp h
    obtain ⟨hf, rfl⟩ := field_eq_ok_iff.mp hf
    rw [set_of_field hf] at h
    by_cases hc : v.conforms G kind = true
    · rw [if_pos hc] at h
      cases h
      exact ⟨i, kind, hf, hc, rfl⟩
    · rw [if_neg hc] at h
      cases h
  · rintro ⟨i, kind, hf, hc, rfl⟩
    rw [set_of_field hf, if_pos hc]

/-- A field that is not replaced is as it was. -/
theorem eq_of_set_eq_error {v : Value n} (h : set G name v m = .error err m') : m' = m := by
  cases hf : m.field G name with
  | error e =>
    rw [set, bind_error (field_eq_error_iff.mpr ⟨hf, rfl⟩)] at h
    cases h
    rfl
  | ok found =>
    rw [set_of_field hf] at h
    by_cases hc : v.conforms G found.2 = true
    · rw [if_pos hc] at h
      cases h
    · rw [if_neg hc] at h
      cases h
      rfl

section Sequence

variable {items : List (Value n)} {i : Nat} {element : Kind n}

/-- An array of a fixed length is held against that first. -/
theorem setSequence_of_fixed {size : UInt64}
    (hf : m.field G name = .ok (i, .array element (.fixed size))) :
    setSequence G name items m =
      if items.length = size.toNat then set G name (.array items) m
      else .error (.lengthMismatch name size.toNat items.length) m := by
  rw [setSequence, bind_ok (field_eq_ok_iff.mpr ⟨hf, rfl⟩)]
  dsimp only
  by_cases hl : items.length = size.toNat
  · rw [if_pos hl, if_neg (fun h => h hl)]
  · rw [if_neg hl, if_pos hl]
    rfl

/-- The number of elements has to be a number of the kind of the field that counts them. -/
theorem setSequence_of_counted {c : String} {j : Nat} {p : Primitive}
    (hf : m.field G name = .ok (i, .array element (.counted c)))
    (hc : m.field G c = .ok (j, .primitive p)) :
    setSequence G name items m = match Scalar.ofCount? p items.length with
      | none => .error (.invalidLength .array items.length 0) m
      | some count => (set G name (.array items) >>= fun _ => put j (.scalar count)) m := by
  rw [setSequence, bind_ok (field_eq_ok_iff.mpr ⟨hf, rfl⟩)]
  dsimp only
  rw [bind_ok (field_eq_ok_iff.mpr ⟨hc, rfl⟩)]
  dsimp only
  cases Scalar.ofCount? p items.length <;> rfl

/-- A field that is no array takes no sequence. -/
theorem setSequence_of_not_array {kind : Kind n} (hf : m.field G name = .ok (i, kind))
    (hk : ∀ element x, kind ≠ .array element x) :
    setSequence G name items m = .error (Instance.mismatch G name kind) m := by
  rw [setSequence, bind_ok (field_eq_ok_iff.mpr ⟨hf, rfl⟩)]
  cases kind with
  | array element x => exact absurd rfl (hk element x)
  | _ => rfl

/-- What counts the elements has to be a primitive. -/
theorem setSequence_of_uncounted {c : String} {j : Nat} {kind : Kind n}
    (hf : m.field G name = .ok (i, .array element (.counted c)))
    (hc : m.field G c = .ok (j, kind)) (hk : ∀ p, kind ≠ .primitive p) :
    setSequence G name items m = .error (Instance.mismatch G c kind) m := by
  rw [setSequence, bind_ok (field_eq_ok_iff.mpr ⟨hf, rfl⟩)]
  dsimp only
  rw [bind_ok (field_eq_ok_iff.mpr ⟨hc, rfl⟩)]
  cases kind with
  | primitive p => exact absurd rfl (hk p)
  | _ => rfl

/-- What a sequence of elements leaves behind in the field called `name`: the array, and its length
in the field that counts it. -/
def Replaced (G : Catalog n) (name : String) (items : List (Value n)) (m m' : Instance n) : Prop :=
  ∃ i element x, m.field G name = .ok (i, .array element x) ∧
    (Value.array items).conforms G (.array element x) = true ∧
    match x with
    | .fixed _ => m' = { m with values := m.values.set i (.array items) }
    | .counted c => ∃ j p count, m.field G c = .ok (j, .primitive p) ∧
      Scalar.ofCount? p items.length = some count ∧
      m' = { m with values := (m.values.set i (.array items)).set j (.scalar count) }

/-- **All is replaced, or nothing.** -/
theorem setSequence_cases (G : Catalog n) (name : String) (items : List (Value n))
    (m : Instance n) :
    (∃ err, setSequence G name items m = .error err m) ∨
      ∃ m', setSequence G name items m = .ok () m' ∧ Replaced G name items m m' := by
  cases hf : m.field G name with
  | error e => exact Or.inl ⟨e, bind_error (field_eq_error_iff.mpr ⟨hf, rfl⟩)⟩
  | ok found =>
    obtain ⟨i, kind⟩ := found
    cases kind with
    | array element x =>
      cases x with
      | fixed size =>
        rw [setSequence_of_fixed hf]
        by_cases hl : items.length = size.toNat
        · rw [if_pos hl, set_of_field hf]
          by_cases hc : (Value.array items).conforms G (.array element (.fixed size)) = true
          · rw [if_pos hc]
            exact Or.inr ⟨_, rfl, i, element, _, hf, hc, rfl⟩
          · rw [if_neg hc]
            exact Or.inl ⟨_, rfl⟩
        · rw [if_neg hl]
          exact Or.inl ⟨_, rfl⟩
      | counted c =>
        cases hc : m.field G c with
        | error e =>
          refine Or.inl ⟨e, ?_⟩
          rw [setSequence, bind_ok (field_eq_ok_iff.mpr ⟨hf, rfl⟩)]
          exact bind_error (field_eq_error_iff.mpr ⟨hc, rfl⟩)
        | ok found =>
          obtain ⟨j, countKind⟩ := found
          cases countKind with
          | primitive p =>
            rw [setSequence_of_counted hf hc]
            cases hk : Scalar.ofCount? p items.length with
            | none => exact Or.inl ⟨_, rfl⟩
            | some count =>
              dsimp only
              have hset := set_of_field hf (.array items)
              by_cases hi : (Value.array items).conforms G (.array element (.counted c)) = true
              · rw [if_pos hi] at hset
                rw [bind_ok hset]
                exact Or.inr ⟨_, rfl, i, element, _, hf, hi, j, p, count, hc, hk, rfl⟩
              · rw [if_neg hi] at hset
                exact Or.inl ⟨_, bind_error hset⟩
          | _ => exact Or.inl ⟨_, setSequence_of_uncounted hf hc nofun⟩
    | _ => exact Or.inl ⟨_, setSequence_of_not_array hf nofun⟩

/-- **A sequence that is refused** leaves the message as it was. -/
theorem eq_of_setSequence_eq_error (h : setSequence G name items m = .error err m') : m' = m := by
  obtain ⟨e, he⟩ | ⟨m₁, hm, -⟩ := setSequence_cases G name items m
  · rw [he] at h
    cases h
    rfl
  · rw [hm] at h
    cases h

/-- **The sequences that are not refused,** and the messages that they leave. -/
theorem setSequence_eq_ok_iff :
    setSequence G name items m = .ok () m' ↔ Replaced G name items m m' := by
  constructor
  · intro h
    obtain ⟨e, he⟩ | ⟨m₁, hm, hr⟩ := setSequence_cases G name items m
    · rw [he] at h
      cases h
    · rw [hm] at h
      cases h
      exact hr
  · rintro ⟨i, element, x, hf, hi, hx⟩
    cases x with
    | fixed size =>
      obtain rfl := hx
      have hl : items.length = size.toNat :=
        beq_iff_eq.mp (Bool.and_eq_true_iff.mp hi).1
      rw [setSequence_of_fixed hf, if_pos hl, set_of_field hf, if_pos hi]
    | counted c =>
      obtain ⟨j, p, count, hc, hk, rfl⟩ := hx
      have hset := set_of_field hf (.array items)
      rw [if_pos hi] at hset
      rw [setSequence_of_counted hf hc, hk]
      dsimp only
      rw [bind_ok hset]
      rfl

end Sequence

end Change

/-! ## The messages that come out -/

namespace Instance

variable {m m' : Instance n} {name : String}

/-- **A field is replaced by a value that conforms to its kind.** -/
theorem set_eq_ok_iff {v : Value n} :
    m.set G name v = .ok m' ↔ ∃ i kind, m.field G name = .ok (i, kind) ∧
      v.conforms G kind = true ∧ m' = { m with values := m.values.set i v } :=
  Change.outcome_eq_ok_iff.trans Change.set_eq_ok_iff

/-- **An array is replaced by conforming elements,** and so is the field that counts it, if there is
one. -/
theorem setSequence_eq_ok {items : List (Value n)} (h : m.setSequence G name items = .ok m') :
    ∃ m₁, m.set G name (.array items) = .ok m₁ ∧ (m' = m₁ ∨
      ∃ c j p count, m.field G c = .ok (j, .primitive p) ∧
        Scalar.ofCount? p items.length = some count ∧
        m' = { m₁ with values := m₁.values.set j (.scalar count) }) := by
  obtain ⟨i, element, x, hf, hi, hx⟩ :=
    Change.setSequence_eq_ok_iff.mp (Change.outcome_eq_ok_iff.mp h)
  refine ⟨_, set_eq_ok_iff.mpr ⟨i, _, hf, hi, rfl⟩, ?_⟩
  cases x with
  | fixed size => exact Or.inl hx
  | counted c =>
    obtain ⟨j, p, count, hc, hk, rfl⟩ := hx
    exact Or.inr ⟨c, j, p, count, hc, hk, rfl⟩

/-- **A counted array that conforms is replaced,** and its count with it. -/
theorem setSequence_of_counted {items : List (Value n)} {i j : Nat} {element : Kind n} {c : String}
    {p : Primitive} {count : Scalar} {m₁ : Instance n}
    (hf : m.field G name = .ok (i, .array element (.counted c)))
    (hc : m.field G c = .ok (j, .primitive p))
    (hk : Scalar.ofCount? p items.length = some count)
    (hm : m.set G name (.array items) = .ok m₁) :
    m.setSequence G name items = .ok { m₁ with values := m₁.values.set j (.scalar count) } := by
  have hset := Change.outcome_eq_ok_iff.mp hm
  refine Change.outcome_eq_ok_iff.mpr ?_
  rw [Change.setSequence_of_counted hf hc, hk]
  dsimp only
  rw [bind_ok hset]
  rfl

end Instance

end MessageWire
