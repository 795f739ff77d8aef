import MessageWire.Bytes.BigEndian
import MessageWire.Schema.Basic
import MessageWire.Text.Hex

/-!
# Fingerprints

The fingerprint of a schema is a 64-bit hash of its shape. A schema that is reached again on its own
path counts as zero; any other is its base seed plus the fingerprints of its nested schemas, in
order and with repetitions, rotated by one bit.

* `Fingerprint`: the hash, eight bytes on the wire;
* `unseen`, `unseen_cons_lt`: the number of schemas that a path has not met, which falls with every
  new schema, so that a path of distinct schemas cannot go on for ever;
* `Catalog.hashFrom`, `Catalog.fingerprint`: the hash below a path, and that of a schema alone;
* `Catalog.compatible`: whether one schema may stand for another.
-/

namespace MessageWire

/-- The hash of a schema. -/
structure Fingerprint where
  value : UInt64
  deriving DecidableEq, Repr, Inhabited

namespace Fingerprint

/-- The wire form. -/
def toBytes (fp : Fingerprint) : Bytes := BigEndian.encode 8 fp.value.toNat

/-- The fingerprint of a wire form. -/
def ofBytes (bs : Bytes) : Fingerprint := ⟨UInt64.ofNat (BigEndian.decode bs)⟩

/-- The sixteen digits of a fingerprint, marked as hexadecimal. -/
def text (fp : Fingerprint) : String := "0x" ++ hexPadded 16 fp.value.toNat

theorem ofBytes_toBytes (fp : Fingerprint) : ofBytes fp.toBytes = fp := by
  have := fp.value.toNat_lt
  rw [ofBytes, toBytes, BigEndian.decode_encode, Nat.mod_eq_of_lt (by omega), UInt64.ofNat_toNat]

end Fingerprint

/-! ## Paths of distinct schemas -/

variable {n : Nat}

/-- The number of schemas that are not on a path. -/
def unseen (path : List (Fin n)) : Nat := (List.finRange n).countP (· ∉ path)

private theorem countP_lt_countP {α : Type} {p q : α → Bool} {a : α} (hp : p a = false)
    (hq : q a = true) (h : ∀ b, p b = true → q b = true) :
    ∀ {l : List α}, a ∈ l → l.countP p < l.countP q
  | b :: l, ha => by
    have hle := List.countP_mono_left fun c (_ : c ∈ l) => h c
    rcases List.mem_cons.1 ha with rfl | ha
    · simp only [List.countP_cons, hp, hq]
      simp only [Bool.false_eq_true, if_false, if_true]
      omega
    · have ih := countP_lt_countP hp hq h ha
      have hb : (if p b = true then 1 else 0) ≤ if q b = true then 1 else 0 := by
        have := h b
        split <;> simp_all
      simp only [List.countP_cons]
      omega

/-- A path that goes on to a new schema leaves fewer unseen. -/
theorem unseen_cons_lt {path : List (Fin n)} {s : Fin n} (h : s ∉ path) :
    unseen (s :: path) < unseen path :=
  countP_lt_countP (a := s) (by simp) (by simpa using h) (by simp +contextual) (List.mem_finRange s)

/-! ## The hash -/

namespace Catalog

variable (G : Catalog n)

/-- The schemas of the nested messages of `s`, field by field. -/
def nested (s : Fin n) : List (Fin n) := (G s).fields.filterMap fun f => f.kind.nested?

/-- A word rotated up by one bit. -/
def rotate (w : UInt64) : UInt64 := (w <<< 1) ||| (w >>> 63)

/-- The hash of `s` when it is reached through the schemas of `path`. -/
def hashFrom (path : List (Fin n)) (s : Fin n) : UInt64 :=
  if s ∈ path then 0
  else rotate <| (G.nested s).foldl (fun sum t => sum + hashFrom (s :: path) t) (G s).baseSeed
termination_by unseen path
decreasing_by exact unseen_cons_lt ‹_›

/-- The fingerprint of a schema. -/
def fingerprint (s : Fin n) : Fingerprint := ⟨G.hashFrom [] s⟩

/-- Whether messages of `s` and `t` may stand for each other: the schemas are the same object, or
have the same name and the same fingerprint. -/
def compatible (s t : Fin n) : Bool :=
  s == t || ((G s).name == (G t).name && G.fingerprint s == G.fingerprint t)

end Catalog

end MessageWire
