import Mathlib.Data.List.Nodup
import MessageWire.Proofs.Schema.Declared
import MessageWire.Scalar
import MessageWire.Schema.Description

/-!
# Descriptions that are built

A description is valid if its names are good, its counted dimensions name earlier integer fields,
and its constants suit their kinds. The checks are made one after the other, and the first one that
fails gives the error.

* `Description.describe_eq`: what has been added to a description;
* `Check`, `FirstFails`, `Decides`: a row of checks, and its answer;
* `Constant.Fits`, `Description.checkConstant_eq`, `Description.checkCount_eq`: constants and counts;
* `Description.checks`, `Description.decides_build`: the checks in order;
* `Description.Valid`, `Description.valid_iff`: what they amount to;
* **`Description.build_describe`**: the descriptions that are built, and the errors of the others.
-/

namespace MessageWire

variable {n : Nat}

/-! ## What has been added -/

namespace Addition

/-- The field that is added. -/
def field? : Addition n → Option (Field n)
  | .field f => some f
  | _ => none

/-- The constant that is added. -/
def constant? : Addition n → Option Constant
  | .constant c => some c
  | _ => none

/-- The base seed that is given. -/
def seed? : Addition n → Option UInt64
  | .baseSeed seed => some seed
  | _ => none

end Addition

/-- **What has been added to a description:** the fields and the constants in order, and the last
base seed. -/
theorem Description.describe_eq (name : String) (as : List (Addition n)) :
    describe name as = ⟨name, as.filterMap Addition.field?, as.filterMap Addition.constant?,
      (as.filterMap Addition.seed?).getLast?⟩ := by
  suffices h : ∀ d : Description n, as.foldl add d = ⟨d.name,
      d.fields ++ as.filterMap Addition.field?, d.constants ++ as.filterMap Addition.constant?,
      (as.filterMap Addition.seed?).getLast?.or d.baseSeed?⟩ by
    simpa [describe] using h ⟨name, [], [], none⟩
  intro d
  induction as generalizing d with
  | nil => simp
  | cons a as ih =>
    rw [List.foldl_cons, ih]
    cases a <;>
      simp [add, Addition.field?, Addition.constant?, Addition.seed?, List.filterMap_cons,
        List.getLast?_cons]

/-! ## Checks -/

/-- Something that a description has to satisfy, and the error if it does not. -/
structure Check where
  holds : Prop
  error : SchemaError

/-- The error is that of the first check that does not hold. -/
inductive FirstFails : List Check → SchemaError → Prop
  | here {c : Check} {cs : List Check} (h : ¬ c.holds) : FirstFails (c :: cs) c.error
  | there {c : Check} {cs : List Check} {e : SchemaError} (h : c.holds) (hs : FirstFails cs e) :
      FirstFails (c :: cs) e

/-- A result is that of a row of checks: a value if all of them hold, and the error of the first one
that does not otherwise. -/
def Decides {α : Type} (cs : List Check) : Except SchemaError α → Prop
  | .ok _ => ∀ c ∈ cs, c.holds
  | .error e => FirstFails cs e

section Checks

variable {α : Type} {c : Check} {cs ds : List Check} {e e' : SchemaError}
  {r : Except SchemaError α}

theorem FirstFails.not_forall (h : FirstFails cs e) : ¬ ∀ c ∈ cs, c.holds := by
  induction h with
  | here h => exact fun hall => h (hall _ List.mem_cons_self)
  | there _ _ ih => exact fun hall => ih fun c hc => hall c (List.mem_cons_of_mem _ hc)

/-- One check is the first to fail. -/
theorem FirstFails.unique (h : FirstFails cs e) (h' : FirstFails cs e') : e = e' := by
  induction h with
  | here h =>
    cases h' with
    | here _ => rfl
    | there h' _ => exact absurd h' h
  | there h _ ih =>
    cases h' with
    | here h' => exact absurd h h'
    | there _ h' => exact ih h'

theorem FirstFails.append (h : FirstFails cs e) : FirstFails (cs ++ ds) e := by
  induction h with
  | here h => exact .here h
  | there h _ ih => exact .there h ih

theorem FirstFails.append_of_forall (hcs : ∀ c ∈ cs, c.holds) (h : FirstFails ds e) :
    FirstFails (cs ++ ds) e := by
  induction cs with
  | nil => exact h
  | cons c cs ih =>
    rw [List.forall_mem_cons] at hcs
    exact .there hcs.1 (ih hcs.2)

namespace Decides

theorem nil (a : α) : Decides [] (.ok a) := List.forall_mem_nil _

theorem append_of_forall (hcs : ∀ c ∈ cs, c.holds) (h : Decides ds r) : Decides (cs ++ ds) r := by
  cases r with
  | ok a => exact List.forall_mem_append.mpr ⟨hcs, h⟩
  | error e => exact FirstFails.append_of_forall hcs h

theorem cons (hc : c.holds) (h : Decides cs r) : Decides (c :: cs) r :=
  append_of_forall (List.forall_mem_singleton.mpr hc) h

/-- A check is made, and others if it holds. -/
theorem guard {p : Prop} [Decidable p] (hp : p ↔ ¬ c.holds) (h : c.holds → Decides cs r) :
    Decides (c :: cs) (if p then .error c.error else r) := by
  by_cases hc : c.holds
  · rw [if_neg fun h => hp.mp h hc]
    exact (h hc).cons hc
  · rw [if_pos (hp.mpr hc)]
    exact FirstFails.here hc

/-- What is made of a value does not matter. -/
theorem bind_pure {β : Type} (f : α → β) (h : Decides cs r) :
    Decides cs (do let a ← r; return f a) := by
  cases r <;> exact h

/-- There is a value if all checks hold. -/
theorem ok_iff (h : Decides cs r) : (∃ a, r = .ok a) ↔ ∀ c ∈ cs, c.holds := by
  cases r with
  | ok a => exact iff_of_true ⟨a, rfl⟩ h
  | error e => exact iff_of_false nofun h.not_forall

/-- There is an error if it is that of the first check to fail. -/
theorem error_iff (h : Decides cs r) : r = .error e ↔ FirstFails cs e := by
  cases r with
  | ok a => exact iff_of_false nofun fun hf => hf.not_forall h
  | error e' => exact ⟨fun he => Except.error.inj he ▸ h, fun hf => congrArg _ (h.unique hf)⟩

end Decides

end Checks

/-! ## Constants -/

namespace Constant

variable (c : Constant)

/-- The value of a constant suits its kind: any number a floating-point kind, and an integer those
kinds that hold it. -/
def Fits : Prop :=
  c.kind = .float32 ∨ c.kind = .float64 ∨
    ∃ (v : Int64) (s : Scalar), c.value = .int v ∧ s.kind = c.kind ∧ s.toInt? = some v.toInt

/-- Why a constant does not suit its kind. -/
def fault : ConstantFault :=
  match c.kind, c.value with
  | .boolean, _ | .text, _ => .notNumeric
  | _, .int _ => .outOfRange
  | _, .float _ => .fractional

/-- The constant as a schema has it: of a floating-point kind it is a double. -/
def settled : Constant :=
  { c with
    value := match c.kind with
      | .float32 | .float64 => .float c.toFloat
      | _ => c.value }

end Constant

/-- **The integers that a kind holds** are those between its bounds. -/
theorem Scalar.exists_toInt?_iff {p : Primitive} {least greatest k : Int}
    (h : Description.bounds? p = some (least, greatest)) :
    (∃ s : Scalar, s.kind = p ∧ s.toInt? = some k) ↔ least ≤ k ∧ k ≤ greatest := by
  constructor
  · rintro ⟨s, rfl, hk⟩
    cases s with
    | int8 v | int16 v | int32 v | int64 v =>
      cases h
      cases hk
      have := v.le_toInt
      have := v.toInt_lt
      omega
    | byte v =>
      cases h
      cases hk
      have := v.toNat_lt
      omega
    | _ => cases hk
  · rintro ⟨hl, hg⟩
    cases p <;> cases h
    · exact ⟨.int8 (.ofInt k), rfl, congrArg some (Int8.toInt_ofInt_of_le hl (by omega))⟩
    · exact ⟨.int16 (.ofInt k), rfl, congrArg some (Int16.toInt_ofInt_of_le hl (by omega))⟩
    · exact ⟨.int32 (.ofInt k), rfl, congrArg some (Int32.toInt_ofInt_of_le hl (by omega))⟩
    · exact ⟨.int64 (.ofInt k), rfl, congrArg some (Int64.toInt_ofInt_of_le hl (by omega))⟩
    · obtain ⟨k, rfl⟩ := Int.eq_ofNat_of_zero_le hl
      refine ⟨.byte (.ofNat k), rfl, congrArg some ?_⟩
      simp
      omega

namespace Description

section Bounds

variable {p : Primitive} {least greatest : Int} (hb : bounds? p = some (least, greatest))
include hb

/-- A constant of an integer kind. -/
theorem checkConstant_int (v : Int64) : checkConstant p (.int v) =
    if least ≤ v.toInt ∧ v.toInt ≤ greatest then .ok (.int v) else .error .outOfRange := by
  cases p <;> cases hb <;> rfl

theorem checkConstant_float (v : Binary64) : checkConstant p (.float v) = .error .fractional := by
  cases p <;> cases hb <;> rfl

theorem fits_iff {name : String} {value : ConstantValue} : (Constant.mk name p value).Fits ↔
    ∃ v : Int64, value = .int v ∧ least ≤ v.toInt ∧ v.toInt ≤ greatest := by
  have hfloat : p ≠ .float32 ∧ p ≠ .float64 := by cases p <;> cases hb <;> decide
  simp [Constant.Fits, hfloat, ← Scalar.exists_toInt?_iff hb]

theorem settled_eq {name : String} {value : ConstantValue} :
    (Constant.mk name p value).settled = ⟨name, p, value⟩ := by
  cases p <;> cases hb <;> rfl

theorem fault_eq {name : String} {value : ConstantValue} : (Constant.mk name p value).fault =
    match value with
    | .int _ => .outOfRange
    | .float _ => .fractional := by
  cases p <;> cases hb <;> cases value <;> rfl

end Bounds

/-- **The check of a constant** passes what suits its kind, and has a reason to refuse the rest. -/
theorem checkConstant_eq (c : Constant) :
    (c.Fits ∧ checkConstant c.kind c.value = .ok c.settled.value) ∨
      ¬ c.Fits ∧ checkConstant c.kind c.value = .error c.fault := by
  obtain ⟨name, p, value⟩ := c
  cases hb : bounds? p with
  | some bounds =>
    rw [fits_iff hb, settled_eq hb, fault_eq hb]
    cases value with
    | int v =>
      rw [checkConstant_int hb]
      by_cases hv : bounds.1 ≤ v.toInt ∧ v.toInt ≤ bounds.2
      · exact Or.inl ⟨⟨v, rfl, hv⟩, if_pos hv⟩
      · refine Or.inr ⟨?_, if_neg hv⟩
        rintro ⟨w, hw, hbounds⟩
        cases hw
        exact hv hbounds
    | float v => exact Or.inr ⟨nofun, checkConstant_float hb v⟩
  | none =>
    cases p with
    | float32 => exact Or.inl ⟨Or.inl rfl, by cases value <;> rfl⟩
    | float64 => exact Or.inl ⟨Or.inr (Or.inl rfl), by cases value <;> rfl⟩
    | boolean | text =>
      refine Or.inr ⟨?_, rfl⟩
      rintro (h | h | ⟨v, s, -, hs, hk⟩)
      · cases h
      · cases h
      · cases s <;> cases hs
        cases hk
    | _ => cases hb

/-! ## Counts -/

/-- Why no dimension of the field at place `i` can be counted by the field called `c`: what the
first field of that name is like. -/
def countFault (fields : List (Field n)) (i : Nat) (c : String) : CountFault :=
  match fields.findIdx? (·.name == c) with
  | none => .missing
  | some j =>
    if i ≤ j then .late
    else match fields[j]? with
      | some ⟨_, .array ..⟩ => .array
      | _ => .notInteger

/-- **The check of a count** passes an integer field among the earlier ones, if these have different
names. -/
theorem checkCount_eq {earlier : List (Field n)} (hnodup : (earlier.map (·.name)).Nodup)
    (rest : List (Field n)) (c : String) :
    ((Extent.counted c).Resolved earlier ∧ checkCount earlier rest c = .ok ()) ∨
      ¬ (Extent.counted c).Resolved earlier ∧
        checkCount earlier rest c = .error (countFault (earlier ++ rest) earlier.length c) := by
  rw [checkCount, countFault, List.findIdx?_append, List.find?_eq_bind_findIdx?_getElem?]
  cases hi : earlier.findIdx? (·.name == c) with
  | none =>
    have hnone : ¬ (Extent.counted c).Resolved earlier := by
      rintro ⟨f, hf, hn, -⟩
      have := List.findIdx?_eq_none_iff.mp hi f hf
      simp [hn] at this
    refine Or.inr ⟨hnone, ?_⟩
    -- a later field of that name comes at the end of the earlier ones or behind
    rw [← List.findIdx?_isSome]
    cases rest.findIdx? (·.name == c) <;> simp
  | some j =>
    obtain ⟨hj, hn, -⟩ := List.findIdx?_eq_some_iff_getElem.mp hi
    have hf : earlier[j]? = some earlier[j] := List.getElem?_eq_getElem hj
    have hone : (Extent.counted c).Resolved earlier ↔ earlier[j].kind.isInteger = true := by
      constructor
      · rintro ⟨f, hm, hc, hk⟩
        have hsame : f.name = earlier[j].name := hc.trans (beq_iff_eq.mp hn).symm
        rwa [List.inj_on_of_nodup_map hnodup hm (List.getElem_mem hj) hsame] at hk
      · exact fun hk => ⟨_, List.getElem_mem hj, beq_iff_eq.mp hn, hk⟩
    rw [hone]
    simp only [Option.bind_some, Option.some_or, hf, List.getElem?_append_left hj,
      if_neg (Nat.not_le.mpr hj)]
    obtain ⟨name, kind⟩ := earlier[j]
    cases kind with
    | primitive p => cases hp : p.isInteger <;> simp [Kind.isInteger, hp]
    | message t => exact Or.inr ⟨Bool.false_ne_true, rfl⟩
    | array element x => exact Or.inr ⟨Bool.false_ne_true, rfl⟩

/-! ## Checks in order -/

/-- A dimension of the field `f` at place `i`. One of a fixed size is never refused. -/
def extentCheck (schema : String) (fields : List (Field n)) (f : Field n) (i : Nat) (x : Extent) :
    Check :=
  ⟨x.Resolved (fields.take i),
    .invalidLengthField schema f.name x.text (countFault fields i x.text)⟩

/-- A field at its place: it has a name, which is new, and its dimensions are resolved, outermost
first. -/
def fieldChecks (schema : String) (fields : List (Field n)) : Field n × Nat → List Check
  | (f, i) =>
    ⟨f.name ≠ "", .emptyName schema⟩ ::
      ⟨∀ g ∈ fields.take i, g.name ≠ f.name, .duplicateField schema f.name⟩ ::
        f.kind.extents.map (extentCheck schema fields f i)

/-- A constant at its place: it has a name, which is new, and its value suits its kind. -/
def constantChecks (schema : String) (constants : List Constant) : Constant × Nat → List Check
  | (c, i) =>
    [⟨c.name ≠ "", .emptyName schema⟩,
      ⟨∀ b ∈ constants.take i, b.name ≠ c.name, .duplicateConstant schema c.name⟩,
      ⟨c.Fits, .invalidConstant schema c.name c.fault⟩]

/-- **All checks of a description:** its name, its fields, its constants. -/
def checks (d : Description n) : List Check :=
  ⟨d.name ≠ "", .emptyName d.name⟩ ::
    (d.fields.zipIdx.flatMap (fieldChecks d.name d.fields) ++
      d.constants.zipIdx.flatMap (constantChecks d.name d.constants))

/-- The check of the dimensions of the field that comes after `earlier`. -/
theorem decides_checkExtents (schema : String) {earlier : List (Field n)}
    (hnodup : (earlier.map (·.name)).Nodup) (rest : List (Field n)) (f : Field n)
    (extents : List Extent) :
    Decides (extents.map (extentCheck schema (earlier ++ rest) f earlier.length))
      (checkExtents schema f.name earlier rest extents) := by
  induction extents with
  | nil => exact Decides.nil ()
  | cons x extents ih =>
    rw [List.map_cons, extentCheck, List.take_left]
    cases x with
    | fixed size => exact ih.cons trivial
    | counted c =>
      rw [checkExtents]
      obtain ⟨hc, h⟩ | ⟨hc, h⟩ := checkCount_eq hnodup rest c
      · rw [h]
        exact ih.cons hc
      · rw [h]
        exact FirstFails.here hc

/-- **The check of the fields** that come after `earlier`. -/
theorem decides_checkFields (schema : String) (earlier rest : List (Field n))
    (hnodup : (earlier.map (·.name)).Nodup) :
    Decides ((rest.zipIdx earlier.length).flatMap (fieldChecks schema (earlier ++ rest)))
      (checkFields schema earlier rest) := by
  induction rest generalizing earlier with
  | nil => exact Decides.nil ()
  | cons f rest ih =>
    rw [List.zipIdx_cons, List.flatMap_cons, fieldChecks, List.take_left, checkFields]
    refine Decides.guard not_not.symm fun _ => Decides.guard (by simp) fun hnew => ?_
    have hextents := decides_checkExtents schema hnodup (f :: rest) f f.kind.extents
    cases hx : checkExtents schema f.name earlier (f :: rest) f.kind.extents with
    | error e =>
      rw [hx] at hextents
      exact hextents.append
    | ok u =>
      rw [hx] at hextents
      refine Decides.append_of_forall hextents ?_
      -- the names in front stay distinct, so each of them stands for one field
      have hrest := ih _ (nodup_names_concat hnodup hnew)
      rwa [List.append_assoc, List.length_append] at hrest

/-- **The check of the constants** that come after `before`, the names of which have been `seen`. -/
theorem decides_checkConstants (schema : String) (before rest : List Constant)
    (seen : List String) (hseen : ∀ name, name ∈ seen ↔ ∃ b ∈ before, b.name = name) :
    Decides ((rest.zipIdx before.length).flatMap (constantChecks schema (before ++ rest)))
      (checkConstants schema seen rest) := by
  induction rest generalizing before seen with
  | nil => exact Decides.nil _
  | cons c rest ih =>
    rw [List.zipIdx_cons, List.flatMap_cons, constantChecks, List.take_left, checkConstants]
    refine Decides.guard not_not.symm fun _ => Decides.guard (by simp [hseen]) fun _ => ?_
    obtain ⟨hc, h⟩ | ⟨hc, h⟩ := checkConstant_eq c
    · rw [h]
      refine Decides.cons hc ?_
      have hseen' : ∀ name, name ∈ c.name :: seen ↔ ∃ b ∈ before ++ [c], b.name = name := by
        intro name
        simp [hseen, or_comm, eq_comm]
      have hrest := ih _ _ hseen'
      rw [List.append_assoc, List.length_append] at hrest
      exact hrest.bind_pure _
    · rw [h]
      exact FirstFails.here hc

/-- Constants that pass the check are settled. -/
theorem eq_of_checkConstants_eq_ok {schema : String} {seen : List String}
    {rest constants : List Constant} (h : checkConstants schema seen rest = .ok constants) :
    constants = rest.map Constant.settled := by
  induction rest generalizing seen constants with
  | nil => exact (Except.ok.inj h).symm
  | cons c rest ih =>
    rw [checkConstants] at h
    split at h
    · cases h
    split at h
    · cases h
    obtain ⟨-, hc⟩ | ⟨-, hc⟩ := checkConstant_eq c
    · rw [hc] at h
      cases hr : checkConstants schema (c.name :: seen) rest with
      | error e =>
        rw [hr] at h
        cases h
      | ok rest' =>
        rw [hr] at h
        rw [List.map_cons, ← ih hr]
        exact (Except.ok.inj h).symm
    · rw [hc] at h
      cases h

/-- **The check of a description** as a whole. -/
theorem decides_build (d : Description n) : Decides d.checks d.build := by
  rw [build]
  split
  · rename_i hname
    exact FirstFails.here (not_not_intro hname)
  rename_i hname
  refine Decides.cons hname ?_
  have hfields := decides_checkFields d.name [] d.fields List.nodup_nil
  have hconstants := decides_checkConstants d.name [] d.constants [] (by simp)
  split
  · rename_i hf
    rw [hf] at hfields
    exact hfields.append
  · rename_i hf
    rw [hf] at hfields
    refine Decides.append_of_forall hfields ?_
    split
    · rename_i hc
      rw [hc] at hconstants
      exact hconstants
    · rename_i hc
      rw [hc] at hconstants
      exact hconstants

/-! ## Valid descriptions -/

/-- **A valid description:** all names are good, every counted dimension names an integer field at
an earlier place, and every constant suits its kind. -/
structure Valid (d : Description n) : Prop where
  name_ne : d.name ≠ ""
  field_name_ne : ∀ f ∈ d.fields, f.name ≠ ""
  fields_nodup : (d.fields.map (·.name)).Nodup
  counted : ∀ (i : Nat) (f : Field n) (c : String), d.fields[i]? = some f →
    .counted c ∈ f.kind.extents →
      ∃ j p, j < i ∧ d.fields[j]? = some ⟨c, .primitive p⟩ ∧ p.isInteger = true
  constant_name_ne : ∀ c ∈ d.constants, c.name ≠ ""
  constants_nodup : (d.constants.map (·.name)).Nodup
  fits : ∀ c ∈ d.constants, c.Fits

/-- What holds of all members at their places. -/
theorem forall_mem_zipIdx_flatMap {α : Type} {xs : List α} {g : α × Nat → List Check} :
    (∀ c ∈ xs.zipIdx.flatMap g, c.holds) ↔
      ∀ i x, xs[i]? = some x → ∀ c ∈ g (x, i), c.holds := by
  rw [List.forall_mem_flatMap]
  constructor
  · intro h i x hx
    exact h (x, i) (List.mem_zipIdx_iff_getElem?.mpr hx)
  · rintro h ⟨x, i⟩ hx
    exact h i x (List.mem_zipIdx_iff_getElem?.mp hx)

/-- Names are distinct if each of them is new at its place. -/
theorem nodup_map_iff_forall_take {α : Type} {xs : List α} {name : α → String} :
    (xs.map name).Nodup ↔ ∀ i x, xs[i]? = some x → ∀ y ∈ xs.take i, name y ≠ name x := by
  rw [List.Nodup, List.pairwise_map, List.pairwise_iff_getElem]
  constructor
  · intro h i x hx y hy
    obtain ⟨hi, rfl⟩ := List.getElem?_eq_some_iff.mp hx
    obtain ⟨j, hj, rfl⟩ := List.mem_take_iff_getElem.mp hy
    exact h j i (by omega) hi (by omega)
  · intro h i j hi hj hij
    exact h j xs[j] (List.getElem?_eq_getElem hj) xs[i]
      (List.mem_take_iff_getElem.mpr ⟨i, by omega, rfl⟩)

/-- A counted dimension is resolved at its place by an integer field at an earlier one. -/
theorem resolved_take_iff {fields : List (Field n)} {i : Nat} {c : String} :
    (Extent.counted c).Resolved (fields.take i) ↔
      ∃ j p, j < i ∧ fields[j]? = some ⟨c, .primitive p⟩ ∧ p.isInteger = true := by
  constructor
  · rintro ⟨⟨_, kind⟩, hf, rfl, hk⟩
    obtain ⟨j, hj, hf⟩ := List.mem_take_iff_getElem.mp hf
    cases kind with
    | primitive p =>
      exact ⟨j, p, by omega, List.getElem?_eq_some_iff.mpr ⟨by omega, hf⟩, hk⟩
    | _ => cases hk
  · rintro ⟨j, p, hj, hf, hp⟩
    obtain ⟨hl, hf⟩ := List.getElem?_eq_some_iff.mp hf
    exact ⟨_, List.mem_take_iff_getElem.mpr ⟨j, by omega, hf⟩, rfl, hp⟩

theorem forall_fieldChecks_iff {schema : String} {fields : List (Field n)} {f : Field n} {i : Nat} :
    (∀ c ∈ fieldChecks schema fields (f, i), c.holds) ↔
      f.name ≠ "" ∧ (∀ g ∈ fields.take i, g.name ≠ f.name) ∧
        ∀ x ∈ f.kind.extents, x.Resolved (fields.take i) := by
  rw [fieldChecks, List.forall_mem_cons, List.forall_mem_cons, List.forall_mem_map]
  rfl

theorem forall_constantChecks_iff {schema : String} {constants : List Constant} {c : Constant}
    {i : Nat} :
    (∀ b ∈ constantChecks schema constants (c, i), b.holds) ↔
      c.name ≠ "" ∧ (∀ b ∈ constants.take i, b.name ≠ c.name) ∧ c.Fits := by
  rw [constantChecks, List.forall_mem_cons, List.forall_mem_cons, List.forall_mem_singleton]

/-- **A description is valid if all its checks hold.** -/
theorem valid_iff (d : Description n) : d.Valid ↔ ∀ c ∈ d.checks, c.holds := by
  simp only [checks, List.forall_mem_cons, List.forall_mem_append, forall_mem_zipIdx_flatMap,
    forall_fieldChecks_iff, forall_constantChecks_iff]
  constructor
  · intro h
    refine ⟨h.name_ne, fun i f hf => ⟨h.field_name_ne f (List.mem_of_getElem? hf),
      nodup_map_iff_forall_take.mp h.fields_nodup i f hf, ?_⟩, fun i c hc =>
      ⟨h.constant_name_ne c (List.mem_of_getElem? hc),
        nodup_map_iff_forall_take.mp h.constants_nodup i c hc,
        h.fits c (List.mem_of_getElem? hc)⟩⟩
    intro x hx
    cases x with
    | fixed size => trivial
    | counted c => exact resolved_take_iff.mpr (h.counted i f c hf hx)
  · rintro ⟨hname, hfields, hconstants⟩
    refine ⟨hname, ?_, nodup_map_iff_forall_take.mpr fun i f hf => (hfields i f hf).2.1,
      fun i f c hf hc => resolved_take_iff.mp ((hfields i f hf).2.2 _ hc), ?_,
      nodup_map_iff_forall_take.mpr fun i c hc => (hconstants i c hc).2.1, ?_⟩
    · intro f hf
      obtain ⟨i, hi⟩ := List.getElem?_of_mem hf
      exact (hfields i f hi).1
    · intro c hc
      obtain ⟨i, hi⟩ := List.getElem?_of_mem hc
      exact (hconstants i c hi).1
    · intro c hc
      obtain ⟨i, hi⟩ := List.getElem?_of_mem hc
      exact (hconstants i c hi).2.2

/-! ## What is built -/

/-- The schema that is built holds what the description does. -/
theorem build_eq_ok_iff {d : Description n} {S : Schema n} :
    d.build = .ok S ↔ d.Valid ∧ S.name = d.name ∧ S.fields = d.fields ∧
      S.constants = d.constants.map Constant.settled ∧
      S.baseSeed = d.baseSeed?.getD (MemberHash.seed d.fields) := by
  have hparts {S : Schema n} (h : d.build = .ok S) : S.name = d.name ∧ S.fields = d.fields ∧
      S.constants = d.constants.map Constant.settled ∧
      S.baseSeed = d.baseSeed?.getD (MemberHash.seed d.fields) := by
    rw [build] at h
    split at h
    · cases h
    split at h
    · cases h
    split at h
    · cases h
    rename_i hc
    cases h
    exact ⟨rfl, rfl, eq_of_checkConstants_eq_ok hc, rfl⟩
  rw [valid_iff, ← (decides_build d).ok_iff]
  constructor
  · intro h
    exact ⟨⟨S, h⟩, hparts h⟩
  · rintro ⟨⟨T, hT⟩, hname, hfields, hconstants, hseed⟩
    obtain ⟨hname', hfields', hconstants', hseed'⟩ := hparts hT
    rw [hT]
    cases S
    cases T
    congr
    · exact hname'.trans hname.symm
    · exact hfields'.trans hfields.symm
    · exact hseed'.trans hseed.symm
    · exact hconstants'.trans hconstants.symm

/-- **The descriptions that are built.** A description is built if it is valid: the schema has its
name, the fields and constants that have been added, in order, and the last base seed, or the hash
of the fields. Otherwise the error is that of the first check that fails: of the name, of the fields
in order, of the constants in order. -/
theorem build_describe (name : String) (as : List (Addition n)) :
    ((∃ S, (describe name as).build = .ok S) ↔ (describe name as).Valid) ∧
      (∀ S, (describe name as).build = .ok S ↔
        (describe name as).Valid ∧ S.name = name ∧ S.fields = as.filterMap Addition.field? ∧
          S.constants = (as.filterMap Addition.constant?).map Constant.settled ∧
          S.baseSeed = (as.filterMap Addition.seed?).getLast?.getD
            (MemberHash.seed (as.filterMap Addition.field?))) ∧
      ∀ err, (describe name as).build = .error err ↔ FirstFails (describe name as).checks err := by
  refine ⟨?_, fun S => ?_, fun err => (decides_build _).error_iff⟩
  · rw [valid_iff]
    exact (decides_build _).ok_iff
  · rw [build_eq_ok_iff, describe_eq]

/-- Two dimensions, of which the inner one is counted by no field. -/
example : (describe "t.Grid" [.field ⟨"grid", .array (.array (.primitive .int8) (.counted "cols"))
    (.fixed 2)⟩] : Description 1).build =
      .error (.invalidLengthField "t.Grid" "grid" "cols" .missing) := by rfl

end Description

end MessageWire
