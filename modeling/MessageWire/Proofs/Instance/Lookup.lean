import MessageWire.Proofs.Instance.Pieces
import MessageWire.Proofs.Instance.Yields

/-!
# Counts are found

A counted dimension names an earlier integer field of the same message. So when an encoder gets to
an array, it has written the count already.

* `Visited`, `Follows`: a field that counts, among the nodes visited before;
* **`Instance.follows_nodes`**, `Instance.exists_count`: an array is visited after its count;
* `Node.Blames`, `Node.Offends.blames`: what an error says about a node;
* `Catalog.exists_name_eq`: what reads like a missing count;
* **`count_lookups_succeed`**: no lookup of a count fails, in the encoder and in the decoder.
-/

namespace MessageWire

variable {n : Nat} (G : Catalog n)

/-! ## Arrays come after their counts -/

/-- The field `c` of the message `m` holds integers, and its value is among the nodes `pre`. -/
def Visited (pre : List (Node n)) (m : Instance n) (c : String) : Prop :=
  ∃ i p v, (G m.schema).index? c = some i ∧ m.values[i]? = some v ∧ p.isInteger = true ∧
    ⟨m, c, .primitive p, v⟩ ∈ pre

/-- Each of the nodes that follow `pre` comes after the field that counts it. -/
def Follows : (pre as : List (Node n)) → Prop
  | _, [] => True
  | pre, a :: as =>
    (∀ element c, a.kind = .array element (.counted c) → Visited G pre a.around c) ∧
      Follows (pre ++ [a]) as

variable {G} {pre as bs : List (Node n)} {m : Instance n}

theorem Visited.mono {pre' : List (Node n)} (hpre : pre ⊆ pre') {c : String}
    (h : Visited G pre m c) : Visited G pre' m c := by
  obtain ⟨i, p, v, hi, hv, hp, hm⟩ := h
  exact ⟨i, p, v, hi, hv, hp, hpre hm⟩

theorem follows_append_iff :
    Follows G pre (as ++ bs) ↔ Follows G pre as ∧ Follows G (pre ++ as) bs := by
  induction as generalizing pre with
  | nil => simp [Follows]
  | cons a as ih =>
    rw [List.cons_append, Follows, Follows, ih, and_assoc, List.append_assoc,
      List.singleton_append]

/-- A node between others. -/
theorem Follows.visited {a : Node n} (h : Follows G pre (as ++ a :: bs)) {element : Kind n}
    {c : String} (ha : a.kind = .array element (.counted c)) :
    Visited G (pre ++ as) a.around c :=
  (follows_append_iff.mp h).2.1 element c ha

namespace Value

mutual

/-- A value, when the fields that count its dimensions have been visited. -/
theorem follows_nodes {m : Instance n} {field : String} {kind : Kind n} {pre : List (Node n)}
    (h : ∀ c, .counted c ∈ kind.extents → Visited G pre m c) (v : Value n) :
    Follows G pre (nodes G m field kind v) := by
  have hself : ∀ element c, kind = .array element (.counted c) → Visited G pre m c := by
    rintro element c rfl
    exact h c List.mem_cons_self
  have hone (w : Value n) : Follows G pre [⟨m, field, kind, w⟩] := ⟨hself, trivial⟩
  cases v with
  | scalar w => cases kind <;> simpa only [nodes] using hone _
  | array items =>
    cases kind with
    | array element x =>
      rw [nodes]
      exact ⟨hself, follows_nodesAll (fun c hc =>
        (h c (List.mem_cons_of_mem _ hc)).mono (List.subset_append_left ..)) items⟩
    | _ => simpa only [nodes] using hone _
  | message u values =>
    cases kind with
    | message t =>
      rw [nodes]
      exact ⟨hself, follows_nodesFields [] [] rfl rfl rfl nofun⟩
    | _ => simpa only [nodes] using hone _

theorem follows_nodesAll {m : Instance n} {field : String} {kind : Kind n} {pre : List (Node n)}
    (h : ∀ c, .counted c ∈ kind.extents → Visited G pre m c) (vs : List (Value n)) :
    Follows G pre (nodesAll G m field kind vs) := by
  cases vs with
  | nil => trivial
  | cons v vs =>
    rw [nodesAll, follows_append_iff]
    exact ⟨follows_nodes h v, follows_nodesAll
      (fun c hc => (h c hc).mono (List.subset_append_left ..)) vs⟩

/-- The fields of a message, of which those before have been visited. -/
theorem follows_nodesFields {m : Instance n} (earlier : List (Field n)) {fs : List (Field n)}
    (done : List (Value n)) {vs : List (Value n)} {pre : List (Node n)}
    (hfs : (G m.schema).fields = earlier ++ fs) (hvs : m.values = done ++ vs)
    (hl : done.length = earlier.length)
    (hpre : ∀ p ∈ earlier.zip done, ⟨m, p.1.name, p.1.kind, p.2⟩ ∈ pre) :
    Follows G pre (nodesFields G m fs vs) := by
  cases vs with
  | nil => cases fs <;> trivial
  | cons v vs =>
    cases fs with
    | nil => trivial
    | cons f fs =>
      obtain ⟨-, -, -, hx, -⟩ := Declared.of_append (hfs ▸ (G m.schema).declared)
      rw [nodesFields, follows_append_iff]
      constructor
      · -- the count is one of the earlier fields, and these are among `pre`
        refine follows_nodes (fun c hc => ?_) v
        obtain ⟨i, p, hi, hf, hp⟩ := (hx _ hc).exists_count hfs
        have hlt : i < done.length := by
          rw [hl]
          exact (List.getElem?_eq_some_iff.mp hf).1
        have hd : done[i]? = some done[i] := List.getElem?_eq_getElem hlt
        refine ⟨i, p, done[i], hi, ?_, hp, hpre (⟨c, .primitive p⟩, done[i]) ?_⟩
        · rw [hvs, List.getElem?_append_left hlt, hd]
        · exact List.mem_of_getElem? (List.getElem?_zip_eq_some.mpr ⟨hf, hd⟩)
      · refine follows_nodesFields (earlier ++ [f]) (done ++ [v])
          (by rw [hfs, List.append_cons]) (by rw [hvs, List.append_cons]) (by simp [hl])
          fun p hp => ?_
        rw [List.zip_append hl.symm, List.mem_append] at hp
        obtain hp | hp := hp
        · exact List.mem_append_left _ (hpre p hp)
        · obtain rfl := List.mem_singleton.mp hp
          exact List.mem_append_right _ (self_mem_nodes G m f.name f.kind v)

end

end Value

/-- **An array is visited after the field that counts it.** -/
theorem Instance.follows_nodes (m : Instance n) : Follows G [] (m.nodes G) :=
  Value.follows_nodesFields [] [] rfl rfl rfl nofun

/-- **The count of an array is a number** when the encoder gets there. -/
theorem Instance.exists_count {a : Node n} (h : m.nodes G = as ++ a :: bs)
    (has : ∀ b ∈ as, b.Sound G) {element : Kind n} {c : String}
    (ha : a.kind = .array element (.counted c)) :
    ∃ k, (G a.around.schema).count? a.around.values c = some k := by
  have hfollows := m.follows_nodes (G := G)
  rw [h] at hfollows
  obtain ⟨i, p, v, hi, hv, hp, hmem⟩ := hfollows.visited ha
  have hsound := has _ hmem
  cases v with
  | scalar w => exact Schema.exists_count? hi hv (hsound.1.symm ▸ hp)
  | _ => exact hsound.elim

/-! ## Errors of the encoder -/

namespace Node

variable (G) (a : Node n)

/-- **What an error says about a node:** no field is unknown, and a value that does not match is
that of the node itself. -/
def Blames : WireError → Prop
  | .unknownField _ => False
  | .typeMismatch field expected =>
    a.Misshapen G ∧ field = a.field ∧ expected = G.kindText a.kind
  | _ => True

variable {G a}

theorem Offends.blames {held : Nat} {err : WireError} (h : a.Offends G held err) :
    a.Blames G err := by
  cases h with
  | shape h => exact ⟨h, rfl, rfl⟩
  | _ => trivial

end Node

/-- **The error of a message** on any sink is a failure of the sink, or it is about a node. -/
theorem Instance.blames_of_encode_into {sink : Sink} {err : WireError}
    (h : ((m.encode G).into sink).1 = .error err) :
    (∃ fault, err = .io fault) ∨ ∃ a ∈ m.nodes G, a.Blames G err := by
  refine (encode_into_error h).imp_right fun h => ?_
  obtain ⟨before, a, after, has, hbefore, e, ha⟩ := exists_of_toBytes_eq_error h
  obtain ⟨hoffends, -⟩ := Node.offends_of_write_eq_error (Encoder.open_new_memory.put _)
    (fun _ _ hk => exists_count has hbefore hk) ha
  exact ⟨a, has ▸ List.mem_append_right _ List.mem_cons_self, hoffends.blames⟩

/-! ## Texts of kinds -/

theorem Primitive.length_name_le (p : Primitive) : p.name.length ≤ 7 := by cases p <;> decide

theorem append_ne_append_ticked (a b name : String) : a ++ "]" ≠ b ++ ticked name := by
  intro h
  have hlast := congrArg (·.toList.getLast?) h
  have hticked : (b ++ ticked name).toList = (b.toList ++ '\x60' :: name.toList) ++ ['\x60'] := by
    simp [ticked]
  simp only [hticked, String.toList_append] at hlast
  rw [List.getLast?_concat] at hlast
  simp at hlast

/-- The only kind that reads like a missing count is a message of a schema that is called so. -/
theorem Catalog.exists_name_eq {kind : Kind n} {field : String}
    (h : G.kindText kind = "integer count for " ++ ticked field) :
    ∃ s, (G s).name = "integer count for " ++ ticked field := by
  obtain hx | ⟨xs, x, hx⟩ := List.eq_nil_or_concat kind.extents
  · cases kind with
    | primitive p =>
      have hp : p.name = "integer count for " ++ ticked field := h
      have hl := p.length_name_le
      rw [hp, String.length_append, show "integer count for ".length = 18 from rfl] at hl
      omega
    | message s => exact ⟨s, h⟩
    | array element x => cases hx
  · rw [Catalog.kindText, hx, List.concat_eq_append, List.foldl_append] at h
    exact absurd h (append_ne_append_ticked _ _ _)

/-! ## Lookups succeed -/

/-- What an encoder has passed is sound. -/
theorem Write.sound_of_forM_eq_ok {e e' : Encoder}
    (h : forM as (Node.write G) e = .ok () e') : ∀ a ∈ as, a.Sound G := by
  induction as generalizing e with
  | nil => exact List.forall_mem_nil _
  | cons a as ih =>
    rw [List.forM_cons] at h
    obtain ⟨_, e₁, ha, h⟩ := bind_eq_ok_iff.mp h
    refine List.forall_mem_cons.mpr ⟨?_, ih h⟩
    by_contra hs
    obtain ⟨err, herr⟩ := Node.write_error (e := e) hs
    rw [herr] at ha
    cases ha

/-- **Counts are always found.** On any sink, the error of a message is never that a field is
unknown, and a value that does not match is that of a node, never a count; it reads like a missing
count only under a schema that is called so. Where the encoder gets to a counted array, all that is
in question is the sign of the count. From any source, under any limits, the decoder fails neither
for an unknown field nor for a value or a length that does not match. -/
theorem count_lookups_succeed (G : Catalog n) :
    (∀ (m : Instance n) (sink : Sink) (err : WireError), ((m.encode G).into sink).1 = .error err →
      (∀ c, err ≠ .unknownField c) ∧
      ∀ field expected, err = .typeMismatch field expected →
        (∃ a ∈ m.nodes G, a.Misshapen G ∧ field = a.field ∧ expected = G.kindText a.kind) ∧
        ∀ name, expected = "integer count for " ++ ticked name → ∃ s, (G s).name = expected) ∧
    (∀ (m : Instance n) (before after : List (Node n)) (a : Node n) (element : Kind n) (c : String)
      (e e' : Encoder), m.nodes G = before ++ a :: after →
        forM before (Node.write G) e = .ok () e' → a.kind = .array element (.counted c) →
          ∃ k, Write.extent G a.around.schema a.around.values a.field (.counted c) e' =
            if k < 0 then .error (.invalidLength .array k e'.position) e' else .ok k.toNat e') ∧
    ∀ (s : Fin n) (source left : Source) (limits : Limits) (err : WireError),
      (Instance.decode G s).run source limits = (.error err, left) →
        (∀ c, err ≠ .unknownField c) ∧ (∀ field expected, err ≠ .typeMismatch field expected) ∧
          ∀ field expected actual, err ≠ .lengthMismatch field expected actual := by
  refine ⟨fun m sink err h => ?_, fun m before after a element c e e' hm he ha => ?_,
    fun s source left limits err h => ?_⟩
  · obtain ⟨fault, rfl⟩ | ⟨a, ha, hblames⟩ := Instance.blames_of_encode_into h
    · exact ⟨nofun, nofun⟩
    · constructor
      · rintro c rfl
        exact hblames
      · rintro field expected rfl
        obtain ⟨hshape, hfield, hkind⟩ := hblames
        refine ⟨⟨a, ha, hshape, hfield, hkind⟩, ?_⟩
        rintro name rfl
        exact Catalog.exists_name_eq hkind.symm
  · obtain ⟨k, hk⟩ := Instance.exists_count hm (Write.sound_of_forM_eq_ok he) ha
    exact ⟨k, Write.extent_of_count? hk a.field e'⟩
  · have hinput := (yields_decode G s).run h
    refine ⟨?_, ?_, ?_⟩
    · rintro c rfl
      exact hinput
    · rintro field expected rfl
      exact hinput
    · rintro field expected actual rfl
      exact hinput

/-- A truth value for a number of rows, five rows announced, and no input. -/
theorem count_lookups_succeed_tables :
    (∃ a ∈ Instance.nodes Instance.tables
        ⟨.last 0, [.scalar (.boolean true), .scalar (.int32 0), .array []]⟩,
      a.Misshapen Instance.tables ∧ "rows" = a.field ∧
        "int32_t" = Instance.tables.kindText a.kind) ∧
    (∃ (k : Int) (e : Encoder), Write.extent Instance.tables (.last 0)
        [.scalar (.int32 5), .scalar (.int32 0), .array []] "cells" (.counted "rows") e =
      if k < 0 then .error (.invalidLength .array k e.position) e else .ok k.toNat e) ∧
    ∀ c, WireError.truncated 0 8 ≠ .unknownField c := by
  obtain ⟨hencode, hextent, hdecode⟩ := count_lookups_succeed Instance.tables
  refine ⟨?_, ?_, ?_⟩
  · exact ((hencode ⟨.last 0, [.scalar (.boolean true), .scalar (.int32 0), .array []]⟩ .memory
      (.typeMismatch "rows" "int32_t") rfl).2 _ _ rfl).1
  · obtain ⟨k, hk⟩ := hextent
      ⟨.last 0, [.scalar (.int32 5), .scalar (.int32 0), .array []]⟩ [_, _] [] _ _ "rows"
      (.new .memory) _ rfl rfl rfl
    exact ⟨k, _, hk⟩
  · have hfixed : Read.fixed 8 ((Decoder.new (.memory []) .standard).facing []) =
        .error (.truncated 0 8) _ := (Read.fixed_facing _ 8 []).trans (if_neg (by decide))
    have hrun : (Instance.decode Instance.tables 0).run (.memory []) .standard =
        (.error (.truncated 0 8), .memory []) :=
      Read.run_of_error (bind_error (bind_error (bind_error hfixed)))
    exact (hdecode 0 _ _ .standard _ hrun).1

end MessageWire
