import MessageWire.Binary.Basic

/-!
# Decimal text of floating-point numbers

A number is printed with the fewest digits that read back to it.

* `shortest`: the coarsest decimal grid with a point nearer to the number than to its neighbours,
  and the point on it;
* `Positional`, `plain`: where positional notation ends;
* `Binary32.text`, `Binary64.text`: the printed forms.
-/

namespace MessageWire

namespace Binary

/-! ## The shortest decimal -/

/-- The reals that round to a number, all in units of `2 ^ scale`. The ends belong to it when
`closed`. -/
structure Interval where
  low : Nat
  value : Nat
  high : Nat
  scale : Int
  closed : Bool

/-- The reals that round to `m * 2 ^ e`. Below a power of two the next number is twice as near,
unless the exponent is the least. -/
def Format.interval (F : Format) (m : Nat) (e : Int) : Interval where
  low := if m = 2 ^ (F.precision - 1) ∧ F.minExponent < e then 4 * m - 1 else 4 * m - 2
  value := 4 * m
  high := 4 * m + 2
  scale := e - 2
  closed := m % 2 = 0

namespace Interval

variable (I : Interval)

/-- The point of the grid of step `10 ^ k` that lies in the interval and is nearest to its value,
the upper one of two equally near. -/
def point? (k : Int) : Option Nat :=
  let a := 2 ^ I.scale.toNat * 10 ^ (-k).toNat
  let b := 2 ^ (-I.scale).toNat * 10 ^ k.toNat
  let d := I.value * a / b
  let r := 2 * (I.value * a % b)
  let above := I.low * a < d * b || (I.closed && I.low * a == d * b)
  let below := (d + 1) * b < I.high * a || (I.closed && (d + 1) * b == I.high * a)
  if above then if below && b ≤ r then some (d + 1) else some d
  else if below then some (d + 1) else none

/-- The first of `steps` grids, from step `10 ^ k` down, with a point in the interval. -/
def search : (steps : Nat) → (k : Int) → Option (Nat × Int)
  | 0, _ => none
  | steps + 1, k => match I.point? k with
    | some d => some (d, k)
    | none => search steps (k - 1)

/-- A grid too coarse to have a point in the interval. -/
def coarse : Int :=
  let x := I.scale + I.high.log2 + 1
  (if 0 ≤ x then x * 4 / 13 else x * 3 / 10) + 1

/-- The digits and the exponent of the shortest decimal in the interval. -/
def shortest : Nat × Int := (I.search 48 I.coarse).getD (I.value, 0)

end Interval

/-! ## Printed forms -/

/-- The exponents of the first digit at which positional notation begins and ends. -/
structure Positional where
  least : Int
  greatest : Int

/-- Positional from a ten-thousandth to below ten to the sixteenth. -/
def plain : Positional := ⟨-4, 15⟩

/-- The text of `d * 10 ^ k`. Positional notation has at least one digit after the point. -/
def Positional.text (N : Positional) (d : Nat) (k : Int) : String :=
  let digits := (toString d).toList
  let e := k + digits.length - 1
  if N.least ≤ e ∧ e ≤ N.greatest then
    if 0 ≤ k then String.ofList (digits ++ List.replicate k.toNat '0') ++ ".0"
    else if 0 ≤ e then
      let whole := (e + 1).toNat
      String.ofList (digits.take whole) ++ "." ++ String.ofList (digits.drop whole)
    else "0." ++ String.ofList (List.replicate (-e - 1).toNat '0' ++ digits)
  else
    let fraction := match digits.drop 1 with
      | [] => ""
      | rest => "." ++ String.ofList rest
    String.ofList (digits.take 1) ++ fraction ++ "e" ++ toString e

/-- The text of a bit pattern of format `F`. -/
def Format.text (F : Format) (bits : Nat) : String :=
  let (negative, m) := F.read bits
  let sign := if negative then "-" else ""
  match m with
  | .nan _ => "NaN"
  | .infinity => sign ++ "inf"
  | .finite 0 _ => sign ++ "0.0"
  | .finite s e =>
    let (d, k) := (F.interval s e).shortest
    sign ++ plain.text d k

end Binary

/-- The shortest decimal that reads back to `x`. -/
def Binary32.text (x : Binary32) : String := Binary.single.text x.bits.toNat

@[inherit_doc Binary32.text]
def Binary64.text (x : Binary64) : String := Binary.double.text x.bits.toNat

end MessageWire
