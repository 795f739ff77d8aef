import MessageWire.Bytes.BigEndian

/-!
# Floating-point numbers as bit patterns

A float is carried as the bits of its interchange form, so that a NaN keeps its payload and its
signalling bit. What the bits stand for is read only where a number is converted or printed.

* `Binary32`, `Binary64`: the two formats, equal when their bits are;
* `Format.read`: the sign, and the integer multiple of a power of two that the bits stand for;
* `Format.nearest`: the bits nearest to `m * 2 ^ e`, a tie going to the even significand;
* `Binary64.ofInt`, `Binary32.widen`: the two conversions.
-/

namespace MessageWire

/-- A single-precision number, by its 32 bits. -/
structure Binary32 where
  bits : UInt32
  deriving DecidableEq, Repr, Inhabited

/-- A double-precision number, by its 64 bits. -/
structure Binary64 where
  bits : UInt64
  deriving DecidableEq, Repr, Inhabited

namespace Binary

/-- What a bit pattern stands for, the sign apart. -/
inductive Magnitude
  | nan (payload : Nat)
  | infinity
  | finite (significand : Nat) (exponent : Int)
  deriving DecidableEq, Repr

/-- An interchange format: `precision` significant bits, and an exponent field of `range` bits. -/
structure Format where
  precision : Nat
  range : Nat

/-- Single precision. -/
def single : Format := ⟨24, 8⟩

/-- Double precision. -/
def double : Format := ⟨53, 11⟩

namespace Format

variable (F : Format)

/-- The exponent of the least positive number. -/
def minExponent : Int := 3 - 2 ^ (F.range - 1) - F.precision

/-- The bits of infinity. -/
def infinityBits : Nat := (2 ^ F.range - 1) * 2 ^ (F.precision - 1)

/-- The place of the sign bit. -/
def signPlace : Nat := F.range + F.precision - 1

/-- The sign bit and the number below it. -/
def read (bits : Nat) : Bool × Magnitude :=
  let fraction := bits % 2 ^ (F.precision - 1)
  let field := bits / 2 ^ (F.precision - 1) % 2 ^ F.range
  (bits.testBit F.signPlace,
    if field = 2 ^ F.range - 1 then if fraction = 0 then .infinity else .nan fraction
    else if field = 0 then .finite fraction F.minExponent
    else .finite (2 ^ (F.precision - 1) + fraction) (F.minExponent + field - 1))

/-- `a / b` rounded to a whole number, a half going to the even neighbour. -/
def roundQuotient (a b : Nat) : Nat :=
  let q := a / b
  let r := 2 * (a % b)
  if b < r ∨ (b = r ∧ q % 2 = 1) then q + 1 else q

/-- The bits of the number nearest to `m * 2 ^ e`, which is infinity from half a unit above the
greatest number on. A carry out of the significand runs into the exponent field. -/
def nearest (m : Nat) (e : Int) : Nat :=
  if m = 0 then 0
  else
    let q := max (e + m.log2 + 1 - F.precision) F.minExponent
    let s := if q ≤ e then m * 2 ^ (e - q).toNat else roundQuotient m (2 ^ (q - e).toNat)
    min ((q - F.minExponent).toNat * 2 ^ (F.precision - 1) + s) F.infinityBits

end Format

end Binary

namespace Binary32

open Binary

/-- The sign of `x` and the number below it. -/
def read (x : Binary32) : Bool × Magnitude := single.read x.bits.toNat

/-- The same number in double precision. A NaN keeps its payload and becomes quiet. -/
def widen (x : Binary32) : Binary64 :=
  let (negative, m) := x.read
  let magnitude := match m with
    | .nan payload => double.infinityBits + (payload ||| 2 ^ 22) * 2 ^ 29
    | .infinity => double.infinityBits
    | .finite s e => double.nearest s e
  ⟨UInt64.ofNat (magnitude + if negative then 2 ^ 63 else 0)⟩

end Binary32

namespace Binary64

open Binary

/-- The sign of `x` and the number below it. -/
def read (x : Binary64) : Bool × Magnitude := double.read x.bits.toNat

/-- Whether `x` is not a number. -/
def isNaN (x : Binary64) : Bool := match x.read.2 with
  | .nan _ => true
  | _ => false

/-- The double nearest to a whole number. -/
def ofInt (i : Int) : Binary64 :=
  ⟨UInt64.ofNat (double.nearest i.natAbs 0 + if i < 0 then 2 ^ 63 else 0)⟩

end Binary64

end MessageWire
