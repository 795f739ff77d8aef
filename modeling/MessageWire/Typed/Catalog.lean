import MessageWire.Schema.Description

/-!
# The schemas of the typed messages

* `Builtin.time`, `Builtin.header`, `Builtin.tree`, `Builtin.sample`: places in the catalog;
* `Builtin.catalog`: a moment, a frame header, a tree of numbers, and a sample of every kind.
-/

namespace MessageWire.Builtin

/-- The place of `std_msgs.Time`. -/
def time : Fin 4 := 0

/-- The place of `std_msgs.Header`. -/
def header : Fin 4 := 1

/-- The place of `test.Tree`. -/
def tree : Fin 4 := 2

/-- The place of `test.Sample`. -/
def sample : Fin 4 := 3

/-- A schema without constants whose base seed is the hash of its fields. -/
def schema (name : String) (fields : List (Field 4)) (name_ne : name ≠ "")
    (declared : Declared [] fields) : Schema 4 :=
  ⟨name, fields, MemberHash.seed fields, [], name_ne, declared⟩

/-- A moment, in seconds and nanoseconds. -/
def timeSchema : Schema 4 :=
  schema "std_msgs.Time" [⟨"sec", .primitive .int32⟩, ⟨"nsec", .primitive .int32⟩]
    (by decide) (by decide)

/-- A numbered moment in a frame of reference. -/
def headerSchema : Schema 4 :=
  schema "std_msgs.Header"
    [⟨"seq", .primitive .int32⟩, ⟨"stamp", .message time⟩, ⟨"frame_id", .primitive .text⟩]
    (by decide) (by decide)

/-- A number with any number of trees below it. -/
def treeSchema : Schema 4 :=
  schema "test.Tree"
    [⟨"value", .primitive .int32⟩, ⟨"children_length", .primitive .int32⟩,
      ⟨"children", .array (.message tree) (.counted "children_length")⟩]
    (by decide) (by decide)

/-- One field of every primitive kind, a counted array and a fixed one. -/
def sampleSchema : Schema 4 :=
  schema "test.Sample"
    [⟨"a", .primitive .int8⟩, ⟨"b", .primitive .int16⟩, ⟨"c", .primitive .int32⟩,
      ⟨"d", .primitive .int64⟩, ⟨"e", .primitive .float32⟩, ⟨"f", .primitive .float64⟩,
      ⟨"g", .primitive .boolean⟩, ⟨"h", .primitive .byte⟩, ⟨"n", .primitive .int16⟩,
      ⟨"tags", .array (.primitive .text) (.counted "n")⟩,
      ⟨"marks", .array (.message time) (.fixed 2)⟩]
    (by decide) (by decide)

/-- The schemas of the typed messages. -/
def catalog : Catalog 4
  | 0 => timeSchema
  | 1 => headerSchema
  | 2 => treeSchema
  | 3 => sampleSchema

end MessageWire.Builtin
