import MessageWire.Typed.Basic
import MessageWire.Typed.Catalog

/-!
# Moments

* `Time`: seconds and nanoseconds;
* `Header`: a numbered moment in a frame of reference.
-/

namespace MessageWire

/-- A moment. -/
structure Time where
  sec : Int32
  nsec : Int32
  deriving DecidableEq, Inhabited

instance : Message Time where
  catalog := Builtin.catalog
  schema := Builtin.time
  write t := do
    Write.scalar (.int32 t.sec)
    Write.scalar (.int32 t.nsec)
  read _ := return ⟨← Read.int32, ← Read.int32⟩

/-- A numbered moment in a frame of reference. -/
structure Header where
  seq : Int32
  stamp : Time
  frame : String
  deriving DecidableEq, Inhabited

instance : Message Header where
  catalog := Builtin.catalog
  schema := Builtin.header
  write h := do
    Write.scalar (.int32 h.seq)
    Write.nested h.stamp
    Write.scalar (.text h.frame)
  read _ := return ⟨← Read.int32, ← Read.nested Time, ← Read.text⟩

end MessageWire
