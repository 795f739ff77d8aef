import Mathlib.Algebra.Ring.Nat
import MessageWire.Proofs.Instance.Encode
import MessageWire.Proofs.Instance.Errors
import MessageWire.Proofs.Schema.Replaced

/-!
# Messages of another schema

The bytes of a message begin with the fingerprint of its schema, and a decoder looks at nothing else
before it has compared that with its own.

* `Instance.run_decode_of_toBytes_ne`: bytes of a schema with another fingerprint;
* **`Instance.one_reference_shows`**: schemas that differ in one reference, at any depth.
-/

namespace MessageWire.Instance

variable {n k : Nat} {G : Catalog n} {H : Catalog k}

/-- **A message of a schema with another fingerprint is refused,** whatever follows it. -/
theorem run_decode_of_toBytes_ne {m : Instance n} {t : Fin k} {bs : Bytes}
    (h : m.toBytes G = .ok bs) (hne : G.fingerprint m.schema ≠ H.fingerprint t) (rest : Bytes)
    (limits : Limits) :
    ∃ left, (decode H t).run (.memory (bs ++ rest)) limits =
      (.error (.fingerprintMismatch (H t).name (H.fingerprint t) (G.fingerprint m.schema)),
        left) := by
  obtain ⟨-, rfl⟩ := toBytes_eq_ok_iff.mp h
  have hfront : (G.fingerprint m.schema).toBytes <+: wire (m.cells G) ++ rest := by
    rw [cells, wire_append, wire_contents, List.append_assoc]
    exact List.prefix_append ..
  exact run_decode_of_fingerprint hfront hne

/-- **One reference shows.** Let nothing lead back below two schemas, whose nesting trees are the
same but for one place, at any depth, where the first refers to `a` and the second to `b`. They have
the same fingerprint exactly if `a` and `b` have; and if these have different ones, the decoder of
the second refuses every message of the first for its fingerprint. -/
theorem one_reference_shows {s a : Fin n} {t b : Fin k} (hs : G.Acyclic s) (ht : H.Acyclic t)
    (h : Catalog.OneApart G H a b s t) :
    (G.fingerprint s = H.fingerprint t ↔ G.fingerprint a = H.fingerprint b) ∧
    (G.fingerprint a ≠ H.fingerprint b →
      ∀ (m : Instance n) (bs rest : Bytes) (limits : Limits), m.schema = s → m.toBytes G = .ok bs →
        ∃ left, (decode H t).run (.memory (bs ++ rest)) limits =
          (.error (.fingerprintMismatch (H t).name (H.fingerprint t) (G.fingerprint s)), left)) := by
  have hiff := h.fingerprint_eq_iff hs ht
  refine ⟨hiff, fun hne m bs rest limits hm hbs => ?_⟩
  subst hm
  exact run_decode_of_toBytes_ne hbs (fun he => hne (hiff.mp he)) rest limits

-- one name for the proof behind the numerals of `Fin 4`
local instance : NeZero 4 := ⟨by decide⟩

/-- Pairs of pairs. The schema of what is innermost in some of them is given. -/
def pairs (inner : Schema 4) : Catalog 4
  | 0 => Catalog.pair 1 2
  | 1 => Catalog.pair 2 3
  | 2 => Catalog.leaf
  | 3 => inner

/-- A schema of the same form with another seed. -/
def blossom : Schema 4 := ⟨"Blossom", [], 8, [], by decide, trivial⟩

/-- A pair in which all that is inside is empty. -/
def hollow : Instance 4 :=
  ⟨0, [.message 1 [.message 2 [], .array [.message (.last 3) [], .message (.last 3) []]],
    .array [.message 2 [], .message 2 []]]⟩

theorem oneApart_pairs (inner inner' : Schema 4) :
    Catalog.OneApart (pairs inner) (pairs inner') (.last 3) (.last 3) 0 0 := by
  have hleaf : Catalog.SameTree (pairs inner) (pairs inner') 2 2 := by
    refine ⟨fun u v => u = 2 ∧ v = 2, ?_, rfl, rfl⟩
    rintro u v ⟨rfl, rfl⟩
    exact ⟨rfl, .nil⟩
  have hmiddle : Catalog.Beside (pairs inner) (pairs inner') (.last 3) (.last 3) 1 1 :=
    ⟨rfl, [2], [], [2], [], rfl, rfl, .cons hleaf .nil, .nil⟩
  exact .inside ⟨rfl, [], [2], [], [2], rfl, rfl, .nil, .cons hleaf .nil⟩ (.here hmiddle)

/-- Two levels down there is a blossom in place of a leaf. -/
theorem one_reference_shows_pairs :
    (pairs Catalog.leaf).fingerprint 0 ≠ (pairs blossom).fingerprint 0 ∧
      ∃ left, (decode (pairs blossom) 0).run
        (.memory (wire (hollow.cells (pairs Catalog.leaf)) ++ [255])) .standard =
          (.error (.fingerprintMismatch "Pair" ((pairs blossom).fingerprint 0)
            ((pairs Catalog.leaf).fingerprint 0)), left) := by
  have hne : (pairs Catalog.leaf).fingerprint (.last 3) ≠ (pairs blossom).fingerprint (.last 3) := by
    rw [Catalog.fingerprint, Catalog.fingerprint, Catalog.hashFrom, Catalog.hashFrom]
    decide
  obtain ⟨hiff, hrefused⟩ := one_reference_shows (Catalog.acyclic_of_lt (by decide) 0)
    (Catalog.acyclic_of_lt (by decide) 0) (oneApart_pairs Catalog.leaf blossom)
  exact ⟨fun he => hne (hiff.mp he),
    hrefused hne hollow _ [255] .standard rfl (toBytes_eq (by decide))⟩

end MessageWire.Instance
