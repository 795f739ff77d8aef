import MessageWire.Binary.Basic
import MessageWire.Bytes.Utf8

/-!
# Scanning JSON

A document is read from left to right, byte by byte, and the first problem decides what is wrong
with it.

* `Flaw`: ill formed, well formed but of no use here, or over too early;
* `Scan`: an action that takes bytes from the front of a document;
* `Scan.string`, `Scan.number`: the content of a string, and a number if it is a whole one that fits
  a word;
* `Scan.useless`: a value that can be of no use, whatever it is.
-/

namespace MessageWire

/-- What is wrong with a document. -/
inductive Flaw
  | malformed
  | unacceptable
  | incomplete
  deriving DecidableEq, Repr

/-- An action that takes bytes from the front of a document. -/
abbrev Scan := StateT Bytes (Except Flaw)

namespace Scan

/-- The byte of a character below 128. -/
def ascii (c : Char) : UInt8 := UInt8.ofNat c.toNat

/-- Skips blanks, tabs and line ends. -/
def blanks : Scan Unit :=
  modify (·.dropWhile fun b => b = 0x20 ∨ b = 0x09 ∨ b = 0x0a ∨ b = 0x0d)

/-- The next byte, which stays. -/
def peek? : Scan (Option UInt8) := return (← get).head?

/-- The next byte that is not blank, which stays. -/
def significant : Scan UInt8 := do
  blanks
  match ← peek? with
  | none => throw .incomplete
  | some b => return b

/-- Drops a byte. -/
def skip : Scan Unit := modify (·.drop 1)

/-- The rest of a word whose first letter has been seen. -/
def word : List Char → Scan Unit
  | [] => return
  | c :: cs => do
    match ← peek? with
    | none => throw .incomplete
    | some b =>
      skip
      if b ≠ ascii c then throw .malformed
      word cs

/-! ## Strings -/

/-- The value of a hexadecimal digit. -/
def hexDigit? (b : UInt8) : Option Nat :=
  if 0x30 ≤ b ∧ b ≤ 0x39 then some (b.toNat - 0x30)
  else if 0x61 ≤ b ∧ b ≤ 0x66 then some (b.toNat - 0x57)
  else if 0x41 ≤ b ∧ b ≤ 0x46 then some (b.toNat - 0x37)
  else none

/-- The value of four hexadecimal digits. -/
def unit? (a b c d : UInt8) : Option Nat :=
  return (((← hexDigit? a) * 16 + (← hexDigit? b)) * 16 + (← hexDigit? c)) * 16 + (← hexDigit? d)

/-- The byte that an escape of one letter stands for. -/
def letter? (b : UInt8) : Option UInt8 :=
  if b = ascii '"' ∨ b = ascii '\\' ∨ b = ascii '/' then some b
  else if b = ascii 'b' then some 0x08
  else if b = ascii 'f' then some 0x0c
  else if b = ascii 'n' then some 0x0a
  else if b = ascii 'r' then some 0x0d
  else if b = ascii 't' then some 0x09
  else none

/-- The bytes of a code point. -/
def codePoint (k : Nat) : Bytes := utf8 (Char.ofNat k).toString

/-- Four hexadecimal digits and what follows them. -/
def codeUnit : Bytes → Except Flaw (Nat × Bytes)
  | a :: b :: c :: d :: rest => match unit? a b c d with
    | none => .error .malformed
    | some u => .ok (u, rest)
  | _ => .error .incomplete

/-- A given byte and what follows it. -/
def expected (c : Char) : Bytes → Except Flaw Bytes
  | [] => .error .incomplete
  | b :: rest => if b = ascii c then .ok rest else .error .malformed

/-- What the escape behind a backslash stands for, and what follows it. A surrogate must come with
its other half. -/
def escape : Bytes → Except Flaw (Bytes × Bytes)
  | [] => .error .incomplete
  | b :: rest =>
    if b = ascii 'u' then do
      let (high, rest) ← codeUnit rest
      if 0xdc00 ≤ high ∧ high ≤ 0xdfff then .error .malformed
      else if 0xd800 ≤ high ∧ high ≤ 0xdbff then do
        let rest ← expected '\\' rest
        let rest ← expected 'u' rest
        let (low, rest) ← codeUnit rest
        if 0xdc00 ≤ low ∧ low ≤ 0xdfff then
          .ok (codePoint (0x10000 + (high - 0xd800) * 0x400 + (low - 0xdc00)), rest)
        else .error .malformed
      else .ok (codePoint high, rest)
    else match letter? b with
      | none => .error .malformed
      | some c => .ok ([c], rest)

private theorem bind_eq_ok {α β : Type} {x : Except Flaw α} {f : α → Except Flaw β} {b : β}
    (h : x >>= f = .ok b) : ∃ a, x = .ok a ∧ f a = .ok b := by
  cases x with
  | error e => cases h
  | ok a => exact ⟨a, rfl, h⟩

theorem length_of_codeUnit {bs rest : Bytes} {u : Nat} (h : codeUnit bs = .ok (u, rest)) :
    rest.length < bs.length := by
  unfold codeUnit at h
  split at h
  · split at h
    · cases h
    · cases h
      simp
      omega
  · cases h

theorem length_of_expected {c : Char} {bs rest : Bytes} (h : expected c bs = .ok rest) :
    rest.length < bs.length := by
  unfold expected at h
  split at h
  · cases h
  · split at h
    · cases h
      simp
    · cases h

/-- An escape takes at least one byte. -/
theorem length_of_escape {bs x rest : Bytes} (h : escape bs = .ok (x, rest)) :
    rest.length < bs.length := by
  unfold escape at h
  split at h
  · cases h
  · rename_i b tail
    split at h
    · obtain ⟨⟨high, r₁⟩, h₁, h⟩ := bind_eq_ok h
      have l₁ := length_of_codeUnit h₁
      simp only [List.length_cons]
      dsimp only at h
      split at h
      · cases h
      split at h
      · obtain ⟨r₂, h₂, h⟩ := bind_eq_ok h
        obtain ⟨r₃, h₃, h⟩ := bind_eq_ok h
        obtain ⟨⟨low, r₄⟩, h₄, h⟩ := bind_eq_ok h
        have l₂ := length_of_expected h₂
        have l₃ := length_of_expected h₃
        have l₄ := length_of_codeUnit h₄
        dsimp only at h
        split at h
        · obtain ⟨-, rfl⟩ := Prod.mk.inj (Except.ok.inj h)
          omega
        · cases h
      · obtain ⟨-, rfl⟩ := Prod.mk.inj (Except.ok.inj h)
        omega
    · split at h
      · cases h
      · cases h
        simp

/-- The content of a string up to its closing quote, and what follows it. -/
def content : Bytes → Except Flaw (Bytes × Bytes)
  | [] => .error .incomplete
  | b :: rest =>
    if b = ascii '"' then .ok ([], rest)
    else if b = ascii '\\' then match _h : escape rest with
      | .error flaw => .error flaw
      | .ok (x, rest') => do
        let (more, rest) ← content rest'
        return (x ++ more, rest)
    else if b < 0x20 then .error .malformed
    else do
      let (more, rest) ← content rest
      return (b :: more, rest)
termination_by bs => bs.length
decreasing_by
  · have := length_of_escape _h
    simp
    omega
  · simp

/-- The content of a string whose opening quote has been seen. -/
def string : Scan Bytes := content

/-! ## Numbers -/

/-- Whether a byte is a decimal digit. -/
def isDigit (b : UInt8) : Bool := 0x30 ≤ b && b ≤ 0x39

/-- The digits at the front, as numbers. -/
def digits : Scan (List Nat) := do
  let bs ← get
  set (bs.dropWhile isDigit)
  return (bs.takeWhile isDigit).map (·.toNat - 0x30)

/-- A number by its leading digits, as many as fit a word, and a power of ten. -/
structure Scaled where
  significand : Nat
  exponent : Int

/-- Takes digits into the significand as long as it fits a word of 64 bits, each of them lowering
the exponent by `place`. What does not fit raises the exponent by `1 - place` a digit. -/
def Scaled.extend (place : Nat) : Scaled → List Nat → Scaled
  | x, [] => x
  | x, d :: ds =>
    if x.significand * 10 + d < 2 ^ 64 then
      extend place ⟨x.significand * 10 + d, x.exponent - place⟩ ds
    else ⟨x.significand, x.exponent + (1 - place) * (d :: ds).length⟩

/-- Whether a number is beyond every double. The significand and the power of ten are rounded to
doubles, and so is their product. -/
def Scaled.isInfinite (x : Scaled) : Bool :=
  let nearest (k : Nat) := match (Binary.double.read (Binary.double.nearest k 0)).2 with
    | .finite m e => (m, e)
    | _ => (0, 0)
  x.significand ≠ 0 && 0 ≤ x.exponent && (308 < x.exponent ||
    let (m, e) := nearest x.significand
    let (m', e') := nearest (10 ^ x.exponent.toNat)
    Binary.double.nearest (m * m') (e + e') == Binary.double.infinityBits)

/-- The end of a number, which is not a whole one that fits a word. -/
def inexact (x : Scaled) : Scan (Option UInt64) :=
  if x.isInfinite then throw .malformed else return none

/-- The exponent of a number, behind its mark. -/
def exponent (x : Scaled) : Scan (Option UInt64) := do
  let sign ← peek?
  if sign = some (ascii '+') ∨ sign = some (ascii '-') then skip
  if (← peek?).isNone then throw .incomplete
  let ds ← digits
  if ds = [] then throw .malformed
  let k : Int := (ds.foldl (fun k d => k * 10 + d) 0 : Nat)
  inexact { x with exponent := if sign = some (ascii '-') then x.exponent - k else x.exponent + k }

/-- The fraction of a number, behind its point. -/
def fraction (x : Scaled) : Scan (Option UInt64) := do
  let ds ← digits
  if ds = [] then throw (if (← peek?).isNone then .incomplete else .malformed)
  let x := x.extend 1 ds
  match ← peek? with
  | some b => if b = ascii 'e' ∨ b = ascii 'E' then skip; exponent x else inexact x
  | none => inexact x

/-- A number without its sign, if it is a whole one that fits a word. -/
def magnitude : Scan (Option UInt64) := do
  let some first ← peek? | throw .incomplete
  let ds ← digits
  if ds = [] ∨ (first = ascii '0' ∧ ds.length ≠ 1) then throw .malformed
  let x := Scaled.extend 0 ⟨0, 0⟩ ds
  let next ← peek?
  if next = some (ascii '.') then
    skip
    fraction x
  else if next = some (ascii 'e') ∨ next = some (ascii 'E') then
    skip
    exponent x
  else if x.exponent = 0 then return some (.ofNat x.significand)
  else inexact x

/-- A number, if it is a whole one that fits a word and has no sign. -/
def number : Scan (Option UInt64) := do
  if (← peek?) = some (ascii '-') then
    skip
    let _ ← magnitude
    return none
  else magnitude

/-- Whether a number begins with `b`. -/
def beginsNumber (b : UInt8) : Bool := b == ascii '-' || isDigit b

/-! ## Useless values -/

/-- A value that begins with `b`, the next byte, and can be of no use. Strings, words and numbers
are read first; of lists and objects the bracket is enough. -/
def useless {α : Type} (b : UInt8) : Scan α := do
  if beginsNumber b then
    let _ ← number
  else
    skip
    if b = ascii '"' then
      let _ ← string
    else if b = ascii 'n' then word ['u', 'l', 'l']
    else if b = ascii 't' then word ['r', 'u', 'e']
    else if b = ascii 'f' then word ['a', 'l', 's', 'e']
    else if b ≠ ascii '[' ∧ b ≠ ascii '\x7b' then throw .malformed
  throw .unacceptable

end Scan

end MessageWire
