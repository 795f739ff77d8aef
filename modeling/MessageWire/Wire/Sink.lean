import MessageWire.Wire.Error

/-!
# Sinks

A sink takes bytes until it is full.

* `Sink`: the bytes held, the capacity, and what happens beyond it and on flushing;
* `Sink.write`: all of the bytes, or as many as there is room for and a failure.
-/

namespace MessageWire

/-- Where bytes go. Without a capacity it is never full; without a fault of its own a full sink
takes nothing more and says so. -/
structure Sink where
  held : Array UInt8
  capacity? : Option Nat
  fault? : Option Fault
  flushFault? : Option Fault

namespace Sink

/-- An empty sink that is never full. -/
def memory : Sink := ⟨#[], none, none, none⟩

/-- What a full sink answers. -/
def fullFault (s : Sink) : Fault :=
  s.fault?.getD ⟨.writeZero, "failed to write whole buffer"⟩

/-- The number of bytes that there is room for, out of `k`. -/
def room (s : Sink) (k : Nat) : Nat :=
  match s.capacity? with
  | none => k
  | some capacity => min k (capacity - s.held.size)

/-- Put `bs` into a sink. If there is no room for all of it, the first bytes fill the sink. -/
def write (s : Sink) (bs : Bytes) : Except Fault Unit × Sink :=
  let room := s.room bs.length
  let answer := if room < bs.length then .error s.fullFault else .ok ()
  (answer, { s with held := s.held ++ bs.take room })

end Sink

end MessageWire
