import MessageWire.Proofs.Wire.Cell
import MessageWire.Value.Basic

/-!
# The nodes of a message

A message is walked through field by field, into arrays and nested messages, depth first. What a
codec asks of a message it asks of every node by itself.

* `Node`, `Value.nodes`, `Instance.nodes`: the nodes in the order in which they are visited,
  `nodes_message`, `nodes_array`;
* `Node.Sound`: the shape that can be written, `Instance.WellFormed`;
* `Node.Bound`, `Node.Complete`: messages of the very schema that a kind names, with all their
  values;
* `Node.Within`, `Value.nesting`, `Instance.Respects`: the limits of a decoder;
* `Node.cells`, `Instance.cells`: the wire form, leaf by leaf.
-/

namespace MessageWire

variable {n : Nat}

/-- A field of a message, or an element of an array in a field: the message around it, the name of
the field, and what is expected and found there. -/
structure Node (n : Nat) where
  around : Instance n
  field : String
  kind : Kind n
  value : Value n

/-! ## Visiting -/

namespace Value

mutual

/-- A value of `field` in the message `m`, and all that is inside it. What does not have the shape
of its kind has no inside. -/
def nodes (G : Catalog n) (m : Instance n) (field : String) : Kind n → Value n → List (Node n)
  | .message t, .message u values =>
    ⟨m, field, .message t, .message u values⟩ :: nodesFields G ⟨u, values⟩ (G u).fields values
  | .array element x, .array items =>
    ⟨m, field, .array element x, .array items⟩ :: nodesAll G m field element items
  | kind, v => [⟨m, field, kind, v⟩]

/-- The elements of an array, in order, and all that is inside them. -/
def nodesAll (G : Catalog n) (m : Instance n) (field : String) (kind : Kind n) :
    List (Value n) → List (Node n)
  | [] => []
  | v :: vs => nodes G m field kind v ++ nodesAll G m field kind vs

/-- The fields of the message `m`, in order, and all that is inside them. -/
def nodesFields (G : Catalog n) (m : Instance n) : List (Field n) → List (Value n) → List (Node n)
  | f :: fs, v :: vs => nodes G m f.name f.kind v ++ nodesFields G m fs vs
  | _, _ => []

end

end Value

/-- The fields of a message, and all that is inside them. -/
def Instance.nodes (G : Catalog n) (m : Instance n) : List (Node n) :=
  Value.nodesFields G m (G m.schema).fields m.values

namespace Value

variable (G : Catalog n) (m : Instance n) (field : String)

theorem nodesAll_eq_flatMap (kind : Kind n) (vs : List (Value n)) :
    nodesAll G m field kind vs = vs.flatMap (nodes G m field kind) := by
  induction vs with
  | nil => rfl
  | cons v vs ih => rw [nodesAll, ih, List.flatMap_cons]

theorem nodesFields_eq_flatMap (fs : List (Field n)) (vs : List (Value n)) :
    nodesFields G m fs vs = (fs.zip vs).flatMap fun p => nodes G m p.1.name p.1.kind p.2 := by
  induction fs generalizing vs with
  | nil => cases vs <;> rfl
  | cons f fs ih =>
    cases vs with
    | nil => rfl
    | cons v vs => rw [nodesFields, ih, List.zip_cons_cons, List.flatMap_cons]

theorem nodes_message (t u : Fin n) (values : List (Value n)) :
    nodes G m field (.message t) (.message u values) =
      ⟨m, field, .message t, .message u values⟩ :: Instance.nodes G ⟨u, values⟩ := by
  rw [nodes, Instance.nodes]

theorem nodes_array (element : Kind n) (x : Extent) (items : List (Value n)) :
    nodes G m field (.array element x) (.array items) =
      ⟨m, field, .array element x, .array items⟩ :: items.flatMap (nodes G m field element) := by
  rw [nodes, nodesAll_eq_flatMap]

/-- A value is visited before all that is inside it. -/
theorem self_mem_nodes (kind : Kind n) (v : Value n) :
    ⟨m, field, kind, v⟩ ∈ nodes G m field kind v := by
  cases v <;> cases kind <;> simp [nodes]

end Value

/-! ## Shape -/

/-- The number that the field `c` holds in a message of schema `S` with the given values. -/
def Schema.count? (S : Schema n) (values : List (Value n)) (c : String) : Option Int :=
  ((S.index? c).bind (values[·]?)).bind Value.toInt?

/-- The extent asks for `k` elements in a message of schema `S` with the given values. -/
def Extent.Counts (S : Schema n) (values : List (Value n)) : Extent → Nat → Prop
  | .fixed size, k => k = size.toNat
  | .counted c, k => S.count? values c = some (k : Int)

instance (S : Schema n) (values : List (Value n)) : (x : Extent) → DecidablePred (x.Counts S values)
  | .fixed size, k => inferInstanceAs (Decidable (k = size.toNat))
  | .counted c, k => inferInstanceAs (Decidable (S.count? values c = some (k : Int)))

/-- The number of elements of a counted dimension is within the limits. -/
def Extent.Within (limits : Limits) : Extent → Nat → Prop
  | .fixed _, _ => True
  | .counted _, k => k ≤ limits.maxArrayLength.toNat

instance (limits : Limits) : (x : Extent) → DecidablePred (x.Within limits)
  | .fixed _, _ => isTrue trivial
  | .counted _, k => inferInstanceAs (Decidable (k ≤ limits.maxArrayLength.toNat))

namespace Node

variable (G : Catalog n) (a : Node n)

/-- **The shape that can be written:** a writable scalar of the very kind, a message of a compatible
schema, or an array of as many elements as its extent asks for. -/
def Sound : Prop :=
  match a.kind, a.value with
  | .primitive p, .scalar v => v.kind = p ∧ v.Writable
  | .message t, .message u _ => G.compatible u t = true
  | .array _ x, .array items => x.Counts (G a.around.schema) a.around.values items.length
  | _, _ => False

instance : Decidable (a.Sound G) := by unfold Sound; split <;> infer_instance

/-- A message is of the very schema that its kind names. -/
def Bound : Prop :=
  match a.kind, a.value with
  | .message t, .message u _ => u = t
  | _, _ => True

instance : Decidable a.Bound := by unfold Bound; split <;> infer_instance

/-- A message has one value for every field. -/
def Complete : Prop :=
  match a.value with
  | .message u values => values.length = (G u).fields.length
  | _ => True

instance : Decidable (a.Complete G) := by unfold Complete; split <;> infer_instance

/-- The length of a text, or of a counted array, is within the limits. -/
def Within (limits : Limits) : Prop :=
  match a.kind, a.value with
  | .primitive _, .scalar v => v.Within limits
  | .array _ x, .array items => x.Within limits items.length
  | _, _ => True

instance (limits : Limits) : Decidable (a.Within limits) := by
  unfold Within; split <;> infer_instance

/-- What a node puts on the wire by itself: a scalar its cells, all else nothing. -/
def cells : List Cell :=
  match a.value with
  | .scalar v => v.cells
  | _ => []

end Node

/-! ## Nesting -/

namespace Value

mutual

/-- The number of levels of messages that a value consists of. -/
def nesting : Value n → Nat
  | .scalar _ => 0
  | .array items => nestingAll items
  | .message _ values => 1 + nestingAll values

/-- The greatest number of levels among some values. -/
def nestingAll : List (Value n) → Nat
  | [] => 0
  | v :: vs => max (nesting v) (nestingAll vs)

end

theorem nestingAll_le_iff {vs : List (Value n)} {k : Nat} :
    nestingAll vs ≤ k ↔ ∀ v ∈ vs, v.nesting ≤ k := by
  induction vs with
  | nil => simp [nestingAll]
  | cons v vs ih => rw [nestingAll, Nat.max_le, ih, List.forall_mem_cons]

end Value

/-! ## Whole messages -/

namespace Instance

variable (G : Catalog n) (m : Instance n)

/-- **A message that can be written:** every node has the shape that its kind asks for. -/
def WellFormed : Prop := ∀ a ∈ m.nodes G, a.Sound G

/-- Every nested message is of the very schema that its kind names. -/
def Bound : Prop := ∀ a ∈ m.nodes G, a.Bound

/-- The message and every nested one have one value for every field. Default construction, editing
and decoding keep to that. -/
def Complete : Prop :=
  m.values.length = (G m.schema).fields.length ∧ ∀ a ∈ m.nodes G, a.Complete G

/-- The number of levels of messages, the outermost counted. -/
def nesting : Nat := 1 + Value.nestingAll m.values

/-- **A message within the limits:** its levels, its texts, and its counted arrays. -/
def Respects (limits : Limits) : Prop :=
  m.nesting ≤ limits.maxDepth.toNat ∧ ∀ a ∈ m.nodes G, a.Within limits

instance : Decidable (m.WellFormed G) := inferInstanceAs (Decidable (∀ a ∈ m.nodes G, a.Sound G))

instance : Decidable (m.Bound G) := inferInstanceAs (Decidable (∀ a ∈ m.nodes G, a.Bound))

instance : Decidable (m.Complete G) := inferInstanceAs (Decidable (_ ∧ ∀ a ∈ m.nodes G, _))

instance (limits : Limits) : Decidable (m.Respects G limits) :=
  inferInstanceAs (Decidable (_ ∧ ∀ a ∈ m.nodes G, _))

/-- The wire form: the fingerprint, and the leaves in order. -/
def cells : List Cell :=
  Cell.contents (G.fingerprint m.schema).toBytes ++ (m.nodes G).flatMap Node.cells

end Instance

end MessageWire
