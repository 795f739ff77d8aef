import MessageWire.Wire.Error

/-!
# Sources

A source hands out its bytes in pieces, which may be of different sizes. After the last byte it
reports the end of the input, or fails.

* `Pieces`: how much each read gets at most, `Pieces.uniform`;
* `Source`: the bytes left, the pieces, and the failure behind the last byte;
* `Source.next`: one read, of as many bytes as asked for or fewer;
* `Source.exactly`: reads until a number of bytes is complete, the end of the input being a failure;
* `Source.upTo`: reads until a number of bytes is complete or the input ends.
-/

namespace MessageWire

/-- How many bytes a read gets at most. Each of the first reads has a bound of its own, and the
reads behind them share one. Without a bound a read gets all it asks for. -/
structure Pieces where
  first : List Nat
  later? : Option Nat
  deriving DecidableEq, Repr

namespace Pieces

/-- The same bound for every read. -/
def uniform (bound? : Option Nat) : Pieces := ⟨[], bound?⟩

/-- A bound alone stands for pieces of that size. -/
instance : Coe (Option Nat) Pieces := ⟨uniform⟩

/-- The bound of the next read. -/
def next? (p : Pieces) : Option Nat := p.first.head?.or p.later?

/-- The bounds behind some reads. -/
def drop (p : Pieces) (reads : Nat) : Pieces := { p with first := p.first.drop reads }

end Pieces

/-- Where bytes come from. -/
structure Source where
  rest : Bytes
  pieces : Pieces
  fault? : Option Fault

namespace Source

/-- A source of given bytes that never fails. -/
def memory (bs : Bytes) : Source := ⟨bs, .uniform none, none⟩

/-- The number of bytes that the next read gets at most if it asks for `k`. -/
def portion (s : Source) (k : Nat) : Nat := min k (s.pieces.next?.getD k)

/-- One read of at most `k` bytes, none at the end of the input. A read of no bytes never fails. -/
def next (s : Source) (k : Nat) : Except Fault Bytes × Source :=
  match k, s.rest, s.fault? with
  | _ + 1, [], some fault => (.error fault, s)
  | k, rest, fault? =>
    (.ok (rest.take (s.portion k)), ⟨rest.drop (s.portion k), s.pieces.drop 1, fault?⟩)

/-- What a source answers that ends before the bytes are complete. -/
def endFault : Fault := ⟨.endOfInput, "failed to fill whole buffer"⟩

/-- Reads until `k` bytes are complete. What has been handed out is gone when a read fails. -/
def exactly (s : Source) (k : Nat) : Except Fault Bytes × Source :=
  if k = 0 then (.ok [], s)
  else match s.next k with
    | (.error fault, s) => (.error fault, s)
    | (.ok bs, s) =>
      if bs = [] then (.error endFault, s)
      else match s.exactly (k - bs.length) with
        | (.error fault, s) => (.error fault, s)
        | (.ok more, s) => (.ok (bs ++ more), s)
termination_by k
decreasing_by
  have := List.length_pos_iff.2 ‹¬ bs = []›
  omega

/-- Reads until `k` bytes are complete or the input ends. -/
def upTo (s : Source) (k : Nat) : Except Fault Bytes × Source :=
  if k = 0 then (.ok [], s)
  else match s.next k with
    | (.error fault, s) => (.error fault, s)
    | (.ok bs, s) =>
      if bs = [] then (.ok [], s)
      else match s.upTo (k - bs.length) with
        | (.error fault, s) => (.error fault, s)
        | (.ok more, s) => (.ok (bs ++ more), s)
termination_by k
decreasing_by
  have := List.length_pos_iff.2 ‹¬ bs = []›
  omega

end Source

end MessageWire
