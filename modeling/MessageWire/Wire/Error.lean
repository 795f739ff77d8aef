import MessageWire.Fingerprint
import MessageWire.Text.Ticked

/-!
# Errors on the wire

* `Fault`: a failure of a source or a sink, by its kind and its text;
* `WireError`: why a message could not be written, read or edited;
* `WireError.message`: the text of an error.
-/

namespace MessageWire

/-- The kind of a failure of a source or a sink. -/
inductive FaultKind
  | endOfInput
  | writeZero
  | other (name : String)
  deriving DecidableEq, Repr

namespace FaultKind

/-- The name of a kind of failure. -/
def name : FaultKind → String
  | endOfInput => "UnexpectedEof"
  | writeZero => "WriteZero"
  | other name => name

/-- The kind of failure with a given name. -/
def ofName (name : String) : FaultKind :=
  if name = endOfInput.name then endOfInput
  else if name = writeZero.name then writeZero
  else other name

end FaultKind

/-- A failure of a source or a sink. -/
structure Fault where
  kind : FaultKind
  text : String
  deriving DecidableEq, Repr

/-- What a length is the length of. -/
inductive Measured
  | text
  | array
  deriving DecidableEq, Repr

/-- The word for it. -/
def Measured.word : Measured → String
  | text => "string"
  | array => "array"

/-- Why a message could not be written, read or edited. -/
inductive WireError
  | fingerprintMismatch (schema : String) (expected found : Fingerprint)
  | truncated (offset needed : Nat)
  | invalidLength (what : Measured) (length : Int) (offset : Nat)
  | lengthMismatch (field : String) (expected actual : Nat)
  | typeMismatch (field expected : String)
  | unknownField (field : String)
  | embeddedNul (offset : Nat)
  | invalidUtf8 (offset : Nat)
  | tooDeep (limit : UInt64)
  | io (fault : Fault)
  deriving DecidableEq, Repr

/-- The text of an error. The length that an array should have is shown as a signed word of 64
bits. -/
def WireError.message : WireError → String
  | fingerprintMismatch schema expected found =>
    "fingerprint mismatch for " ++ schema ++ ": expected " ++ expected.text ++ ", found " ++
      found.text
  | truncated offset needed =>
    "truncated input at offset " ++ toString offset ++ ": " ++ toString needed ++
      " more bytes needed"
  | invalidLength what length offset =>
    "invalid " ++ what.word ++ " length " ++ toString length ++ " at offset " ++ toString offset
  | lengthMismatch field expected actual =>
    "field " ++ ticked field ++ " holds " ++ toString actual ++ " elements, expected " ++
      toString (Int64.ofNat expected).toInt
  | typeMismatch field expected =>
    "value for field " ++ ticked field ++ " does not match kind " ++ expected
  | unknownField field => "unknown field " ++ ticked field
  | embeddedNul offset =>
    "string at offset " ++ toString offset ++ " contains an embedded NUL byte"
  | invalidUtf8 offset => "string at offset " ++ toString offset ++ " is not valid UTF-8"
  | tooDeep limit => "message nesting exceeds " ++ toString limit.toNat ++ " levels"
  | io fault => "I/O error: " ++ fault.text

end MessageWire
