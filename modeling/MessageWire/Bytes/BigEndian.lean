/-!
# Big-endian words

A word of `w` bytes carries a natural number below `256 ^ w`, most significant byte first.

* `natPow`: powers, which mean the same whatever else is imported;
* `BigEndian.encode`, `BigEndian.decode`: from numbers to bytes and back;
* `decode_encode`, `encode_decode`: the two are inverse, for every width at once.
-/

namespace MessageWire

/-- The powers of natural numbers and of integers, preferred to those of other structures. -/
@[default_instance 10001]
instance (priority := 1100) natPow {α : Type} [NatPow α] : Pow α Nat := instPowNat

/-- A string of octets. -/
abbrev Bytes := List UInt8

namespace BigEndian

/-- The `w` low-order digits of `n` in base 256, most significant first. -/
def encode : (w n : Nat) → Bytes
  | 0, _ => []
  | w + 1, n => encode w (n / 256) ++ [UInt8.ofNat n]

/-- The number whose base-256 digits are `bs`. -/
def decode (bs : Bytes) : Nat := bs.foldl (fun n b => n * 256 + b.toNat) 0

@[simp] theorem length_encode : ∀ w n, (encode w n).length = w
  | 0, _ => rfl
  | w + 1, n => by simp [encode, length_encode w]

theorem decode_append_singleton (bs : Bytes) (b : UInt8) :
    decode (bs ++ [b]) = decode bs * 256 + b.toNat := by
  simp [decode]

theorem decode_encode : ∀ w n, decode (encode w n) = n % 256 ^ w
  | 0, n => by simp [encode, decode, Nat.mod_one]
  | w + 1, n => by
    rw [encode, decode_append_singleton, decode_encode w, UInt8.toNat_ofNat',
      show 256 ^ (w + 1) = 256 * 256 ^ w from Nat.pow_succ', Nat.mod_mul]
    omega

theorem decode_lt (bs : Bytes) : decode bs < 256 ^ bs.length := by
  induction h : bs.length generalizing bs with
  | zero => simp [List.length_eq_zero_iff.1 h, decode]
  | succ k ih =>
    obtain ⟨init, b, rfl⟩ : ∃ init b, bs = init ++ [b] :=
      ⟨bs.dropLast, bs.getLast (by rintro rfl; simp at h), (List.dropLast_concat_getLast _).symm⟩
    have hi := ih init (by simpa using h)
    have hb := b.toNat_lt
    rw [decode_append_singleton, Nat.pow_succ]
    omega

/-- Every string of bytes is the word of the number it carries. -/
theorem encode_decode (bs : Bytes) : encode bs.length (decode bs) = bs := by
  induction h : bs.length generalizing bs with
  | zero => simp [List.length_eq_zero_iff.1 h, encode]
  | succ k ih =>
    obtain ⟨init, b, rfl⟩ : ∃ init b, bs = init ++ [b] :=
      ⟨bs.dropLast, bs.getLast (by rintro rfl; simp at h), (List.dropLast_concat_getLast _).symm⟩
    have hb := b.toNat_lt
    rw [decode_append_singleton, encode, show (decode init * 256 + b.toNat) / 256 = decode init by
      omega, ih init (by simpa using h)]
    congr 2
    apply UInt8.toNat_inj.1
    rw [UInt8.toNat_ofNat']
    omega

end BigEndian

end MessageWire
