import MessageWire.Bytes.Utf8
import MessageWire.Schema.Basic

/-!
# The member hash

The base seed of a schema is a hash of its field names, primitive type names and dimensions. The
name of the schema and the types of nested messages are not part of it.

* `MemberHash.update`: one step, over a signed byte;
* `MemberHash.stream`: the bytes that describe a list of fields;
* `MemberHash.seed`: the steps over the stream, from a fixed start.
-/

namespace MessageWire.MemberHash

/-- The value before the first step. -/
def start : Int64 := 0x12345678

/-- One step: the value moves up by a byte, its top nine bits come back in at the bottom, and the
byte is added with its sign. -/
def update (v : Int64) (b : UInt8) : Int64 := ((v <<< 8) ^^^ (v >>> 55)) + b.toInt8.toInt64

/-- A text as its length, cut to a byte, and its content. -/
def text (s : String) : Bytes := UInt8.ofNat (utf8 s).length :: utf8 s

/-- A dimension: its mode, then the size in decimal or the name of the counting field. -/
def extent : Extent → Bytes
  | .fixed size => 0 :: text (toString size.toNat)
  | .counted field => 1 :: text field

variable {n : Nat}

/-- A field: its name, the type name of a primitive leaf, the number of dimensions and each of
them. -/
def field (f : Field n) : Bytes :=
  let leaf := match f.kind.leaf with
    | .primitive p => text p.name
    | _ => []
  let extents := f.kind.extents
  text f.name ++ leaf ++ UInt8.ofNat extents.length :: extents.flatMap extent

/-- The bytes of a list of fields, in order. -/
def stream (fields : List (Field n)) : Bytes := fields.flatMap field

/-- The steps over `bytes`, from the value `v`. -/
def run (v : Int64) (bytes : Bytes) : Int64 := bytes.foldl update v

/-- The base seed of a list of fields. -/
def seed (fields : List (Field n)) : UInt64 := (run start (stream fields)).toUInt64

end MessageWire.MemberHash
