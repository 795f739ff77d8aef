import MessageWire.Json.Scan
import MessageWire.Limits.Basic
import MessageWire.Text.Ticked

/-!
# Limits as documents

Limits are written as an object with one whole number for each of them. Missing ones keep their
standard value. A list gives them in order, from the first on.

* `Bound`: the names of the limits;
* `Limits.ofJson`, `Limits.toJson`: from a document and back;
* `LimitsError`: a flaw of the document, or a depth of zero, under which there are no messages.
-/

namespace MessageWire

/-- The name of a limit. -/
inductive Bound
  | text
  | array
  | depth
  deriving DecidableEq, Repr

namespace Bound

/-- The key of a limit. -/
def key : Bound → String
  | text => "max_string_len"
  | array => "max_array_len"
  | depth => "max_depth"

/-- All limits, in order. -/
def all : List Bound := [text, array, depth]

/-- The limit with a given key. -/
def ofKey? (bs : Bytes) : Option Bound := all.find? fun b => utf8 b.key == bs

end Bound

/-- Why limits are not taken. -/
inductive LimitsError
  | document (flaw : Flaw)
  | zero (bound : Bound)
  deriving DecidableEq, Repr

/-- The text of an error. What is wrong with a document is not told. -/
def LimitsError.message : LimitsError → String
  | document _ => "invalid codec config"
  | zero bound => "codec config field " ++ ticked bound.key ++ " must be greater than zero"

namespace Limits

/-- The value of a limit. -/
def get (limits : Limits) : Bound → UInt64
  | .text => limits.maxTextLength
  | .array => limits.maxArrayLength
  | .depth => limits.maxDepth

/-- Limits with one of them replaced. -/
def set (limits : Limits) (v : UInt64) : Bound → Limits
  | .text => { limits with maxTextLength := v }
  | .array => { limits with maxArrayLength := v }
  | .depth => { limits with maxDepth := v }

/-! ## Reading -/

section Reading

open Scan

/-- The number for a limit. -/
def number : Scan UInt64 := do
  let b ← significant
  if beginsNumber b then
    let some v ← Scan.number | throw .unacceptable
    return v
  else useless b

/-- The entries of an object whose bracket has been seen, and its end. No limit but those of `free`
may be given. -/
def entries (free : List Bound) (first : Bool) (limits : Limits) : Scan Limits := do
  let b ← significant
  if b = ascii '\x7d' then
    skip
    return limits
  if !first then
    if b ≠ ascii ',' then throw .malformed
    skip
  if (← significant) ≠ ascii '"' then throw .malformed
  skip
  let key ← string
  match Bound.ofKey? key with
  | none => throw .unacceptable
  | some bound =>
    if bound ∈ free then
      if (← significant) ≠ ascii ':' then throw .malformed
      skip
      let v ← number
      entries (free.erase bound) false (limits.set v bound)
    else throw .unacceptable
termination_by free.length
decreasing_by
  rw [List.length_erase_of_mem ‹_›]
  have := List.length_pos_of_mem ‹bound ∈ free›
  omega

/-- The elements of a list whose bracket has been seen, for the limits of `free`, and its end. -/
def elements (first : Bool) : (free : List Bound) → Limits → Scan Limits
  | [], limits => do
    if (← significant) ≠ ascii ']' then throw .malformed
    skip
    return limits
  | bound :: free, limits => do
    let b ← significant
    if b = ascii ']' then
      skip
      return limits
    if !first then
      if b ≠ ascii ',' then throw .malformed
      skip
      if (← significant) = ascii ']' then throw .malformed
    let v ← number
    elements false free (limits.set v bound)

/-- A whole document. -/
def document : Scan Limits := do
  let b ← significant
  let limits ←
    if b = ascii '\x7b' then
      skip
      entries Bound.all true standard
    else if b = ascii '[' then
      skip
      elements true Bound.all standard
    else useless b
  blanks
  if (← peek?).isSome then throw .malformed
  return limits

/-- The limits of a document. A depth of zero is refused only when the document has no flaw. -/
def ofJson (text : String) : Except LimitsError Limits :=
  match document.run (utf8 text) with
  | .error flaw => .error (.document flaw)
  | .ok (limits, _) => if limits.maxDepth = 0 then .error (.zero .depth) else .ok limits

end Reading

/-- The document of some limits, in order and without blanks. -/
def toJson (limits : Limits) : String :=
  let entry (bound : Bound) := "\"" ++ bound.key ++ "\":" ++ toString (limits.get bound).toNat
  "\x7b" ++ ",".intercalate (Bound.all.map entry) ++ "\x7d"

end Limits

end MessageWire
