import MessageWire.Typed.Time

/-!
# Samples

* `Sample`: one field of every primitive kind, texts, and two moments.
-/

namespace MessageWire

/-- One field of every primitive kind, texts, and two moments. -/
structure Sample where
  a : Int8
  b : Int16
  c : Int32
  d : Int64
  e : Binary32
  f : Binary64
  g : Bool
  h : UInt8
  tags : List String
  marks : Time × Time
  deriving DecidableEq, Inhabited

namespace Sample

/-- The fields of a sample. The number of texts is not a field of its own. -/
def write (x : Sample) : Write Unit := do
  Write.scalar (.int8 x.a)
  Write.scalar (.int16 x.b)
  Write.scalar (.int32 x.c)
  Write.scalar (.int64 x.d)
  Write.scalar (.float32 x.e)
  Write.scalar (.float64 x.f)
  Write.scalar (.boolean x.g)
  Write.scalar (.byte x.h)
  Write.scalar (.int16 (.ofNat x.tags.length))
  x.tags.forM fun s => Write.scalar (.text s)
  Write.nested x.marks.1
  Write.nested x.marks.2

/-- The fields of a sample. A bad number of texts is reported where the number begins. -/
def read : Read Sample := do
  let a ← Read.int8
  let b ← Read.int16
  let c ← Read.int32
  let d ← Read.int64
  let e ← Read.float32
  let f ← Read.float64
  let g ← Read.boolean
  let h ← Read.byte
  let offset ← Read.position
  let n ← Read.countAt (← Read.int16).toInt offset
  let tags ← Read.times n Read.text
  let marks := (← Read.nested Time, ← Read.nested Time)
  return { a, b, c, d, e, f, g, h, tags, marks }

instance : Message Sample where
  catalog := Builtin.catalog
  schema := Builtin.sample
  write
  read _ := read

end Sample

end MessageWire
