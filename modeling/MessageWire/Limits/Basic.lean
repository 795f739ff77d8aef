/-!
# Limits

What a decoder accepts from a source that it does not trust, and the constants of the format.

* `Limits`: bounds on the length of texts, the length of counted arrays and the nesting of messages;
* `Limits.standard`, `Limits.unlimited`: the bounds in use when none are given, and none at all.
-/

namespace MessageWire

/-- The bytes of a fingerprint in front of a message. -/
def fingerprintSize : Nat := 8

/-- The bytes of the length in front of a text. -/
def textLengthSize : Nat := 4

/-- The byte behind the content of a text. -/
def terminator : UInt8 := 0

/-- The elements or bytes for which a decoder makes room before it has seen any of them. -/
def reserveLimit : Nat := 4096

/-- The bounds of a decoder. -/
structure Limits where
  maxTextLength : UInt64
  maxArrayLength : UInt64
  maxDepth : UInt64
  deriving DecidableEq, Repr

namespace Limits

/-- Texts of 64 MiB, arrays of 16 Mi elements and 64 levels. -/
def standard : Limits := ⟨64 * 1024 * 1024, 16 * 1024 * 1024, 64⟩

/-- The greatest bounds there are. -/
def unlimited : Limits := ⟨0xffffffffffffffff, 0xffffffffffffffff, 0xffffffffffffffff⟩

instance : Inhabited Limits := ⟨standard⟩

end Limits

end MessageWire
