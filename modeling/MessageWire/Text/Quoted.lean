import MessageWire.Text.Hex
import MessageWire.Text.Unprintable

/-!
# Quoted text

A text between double quotes, in which every character can be told from its neighbours.

* `quotedChar`: a character as it stands between the quotes;
* `quoted`: the whole text.
-/

namespace MessageWire

/-- Quotes, backslashes and the common controls have an escape of one letter; what has no printed
form of its own is named by its code point. -/
def quotedChar (c : Char) : String :=
  match c with
  | '"' => "\\\""
  | '\\' => "\\\\"
  | '\n' => "\\n"
  | '\t' => "\\t"
  | '\r' => "\\r"
  | '\x00' => "\\0"
  | c => if isUnprintable c then "\\u\x7b" ++ hex c.toNat ++ "\x7d" else c.toString

/-- A text between double quotes. -/
def quoted (s : String) : String :=
  "\"" ++ s.foldl (fun acc c => acc ++ quotedChar c) "" ++ "\""

end MessageWire
