import Mathlib.Data.List.Nodup
import MessageWire.Schema.Basic

/-!
# Declared fields

* `Declared.nodup`, `Declared.resolved`: the names of a declared list are distinct, and its counted
  extents name integer fields of the list, `Declared.of_append`;
* `Schema.exists_index?`: a field is found by its name;
* `Schema.exists_count_field`: the field that counts the elements of an array.
-/

namespace MessageWire

variable {n : Nat}

theorem Extent.Resolved.mono {earlier fields : List (Field n)} (hf : earlier ⊆ fields) {x : Extent}
    (h : x.Resolved earlier) : x.Resolved fields := by
  cases x with
  | fixed size => trivial
  | counted c =>
    obtain ⟨f, hm, hn⟩ := h
    exact ⟨f, hf hm, hn⟩

/-- Names stay distinct with one that is new. -/
theorem nodup_names_concat {earlier : List (Field n)} {f : Field n}
    (he : (earlier.map (·.name)).Nodup) (hnew : ∀ g ∈ earlier, g.name ≠ f.name) :
    ((earlier ++ [f]).map (·.name)).Nodup := by
  rw [List.map_append, List.map_singleton, ← List.concat_eq_append]
  refine he.concat fun hm => ?_
  obtain ⟨g, hg, e⟩ := List.mem_map.mp hm
  exact hnew g hg e

/-- A name is declared once. -/
theorem Declared.nodup {earlier rest : List (Field n)} (h : Declared earlier rest)
    (he : (earlier.map (·.name)).Nodup) : ((earlier ++ rest).map (·.name)).Nodup := by
  induction rest generalizing earlier with
  | nil => rwa [List.append_nil]
  | cons f rest ih =>
    obtain ⟨-, hnew, -, hrest⟩ := h
    have := ih hrest (nodup_names_concat he hnew)
    rwa [List.append_assoc, List.singleton_append] at this

/-- A counted extent names an integer field. -/
theorem Declared.resolved {earlier rest : List (Field n)} (h : Declared earlier rest) :
    ∀ f ∈ rest, ∀ x ∈ f.kind.extents, x.Resolved (earlier ++ rest) := by
  induction rest generalizing earlier with
  | nil => exact List.forall_mem_nil _
  | cons f rest ih =>
    obtain ⟨-, -, hx, hrest⟩ := h
    rw [List.forall_mem_cons]
    refine ⟨fun x hm => (hx x hm).mono (List.subset_append_left ..), ?_⟩
    have := ih hrest
    rwa [List.append_assoc, List.singleton_append] at this

/-- A declared list in two parts. -/
theorem Declared.of_append {earlier fs rest : List (Field n)} (h : Declared earlier (fs ++ rest)) :
    Declared earlier fs ∧ Declared (earlier ++ fs) rest := by
  induction fs generalizing earlier with
  | nil => exact ⟨trivial, by rwa [List.append_nil]⟩
  | cons f fs ih =>
    obtain ⟨hne, hnew, hx, hrest⟩ := h
    obtain ⟨hfs, hrest⟩ := ih hrest
    exact ⟨⟨hne, hnew, hx, hfs⟩, by rwa [List.append_cons]⟩

namespace Schema

variable {S : Schema n}

/-- A field is found by its name. -/
theorem exists_index? {f : Field n} (hf : f ∈ S.fields) :
    ∃ i, S.index? f.name = some i ∧ S.fields[i]? = some f := by
  cases hi : S.index? f.name with
  | none =>
    have := List.findIdx?_eq_none_iff.mp hi f hf
    simp at this
  | some i =>
    obtain ⟨hl, hn, -⟩ := List.findIdx?_eq_some_iff_getElem.mp hi
    have hnames : (S.fields.map (·.name)).Nodup := S.declared.nodup List.nodup_nil
    have hname : S.fields[i].name = f.name := by simpa using hn
    have he : S.fields[i] = f :=
      List.inj_on_of_nodup_map hnames (List.getElem_mem hl) hf hname
    exact ⟨i, rfl, by rw [List.getElem?_eq_getElem hl, he]⟩

/-- The field that counts the elements of an array holds integers. -/
theorem exists_count_field {f : Field n} (hf : f ∈ S.fields) {c : String}
    (hc : .counted c ∈ f.kind.extents) :
    ∃ i g p, S.index? c = some i ∧ S.fields[i]? = some g ∧ g.kind = .primitive p ∧
      p.isInteger = true := by
  obtain ⟨g, hg, rfl, hk⟩ := S.declared.resolved f hf _ hc
  obtain ⟨i, hi, hgi⟩ := exists_index? hg
  cases hkind : g.kind with
  | primitive p =>
    rw [hkind] at hk
    exact ⟨i, g, p, hi, hgi, hkind, hk⟩
  | _ =>
    rw [hkind] at hk
    cases hk

end Schema

end MessageWire
