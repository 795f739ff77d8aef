import MessageWire.Instance.Decode
import MessageWire.Instance.Encode

/-!
# Typed messages

A type of messages has a schema of its own and says itself how its fields are written and read. It
is framed, and held against the limits, as any other message.

* `Message`: a type with its schema and the two actions;
* `Write.nested`, `Read.nested`: a typed message inside another;
* `Message.encode`, `Message.toBytes`, `Message.decode`: a typed message by itself.
-/

namespace MessageWire

/-- A type of messages. Reading is told how many levels may be open, the message's own included. -/
class Message (α : Type) where
  {size : Nat}
  catalog : Catalog size
  schema : Fin size
  write : α → Write Unit
  read : (room : Nat) → Read α

variable {α : Type} [Message α]

/-- The fields of a typed message, without a fingerprint. -/
def Write.nested (a : α) : Write Unit := Message.write a

/-- The fields of a typed message, on a level of their own. -/
def Read.nested (α : Type) [Message α] : Read α := do
  let room ← Read.levels
  Read.level (Message.read room)

namespace Message

/-- The fingerprint of a type of messages. -/
def fingerprint (α : Type) [Message α] : Fingerprint := (catalog (α := α)).fingerprint schema

/-- The name of a type of messages. -/
def name (α : Type) [Message α] : String := (catalog (α := α) schema).name

/-- A typed message with its fingerprint. -/
def encode (a : α) : Write Unit := do
  Write.fingerprint (fingerprint α)
  write a
  Write.flush

/-- The bytes of a typed message. -/
def toBytes (a : α) : Except WireError Bytes := (encode a).toBytes

/-- A typed message with its fingerprint. -/
def decode (α : Type) [Message α] : Read α := do
  Read.expect (name α) (fingerprint α)
  Read.nested α

end Message

end MessageWire
