/-!
# Hexadecimal text

* `hex`, `hexPadded`: lower-case digits, with zeros in front up to a width.
-/

namespace MessageWire

/-- The lower-case hexadecimal digits of `n`. -/
def hex (n : Nat) : String := String.ofList (Nat.toDigits 16 n)

/-- The digits of `n`, at least `width` of them. -/
def hexPadded (width n : Nat) : String :=
  let digits := Nat.toDigits 16 n
  String.ofList (List.replicate (width - digits.length) '0' ++ digits)

end MessageWire
