import MessageWire.Typed.Basic
import MessageWire.Typed.Catalog

/-!
# Trees

* `Tree`: a number with trees below it;
* `Tree.write`, `Tree.read`: the number, the number of trees, the trees.
-/

namespace MessageWire

/-- A number with trees below it. -/
inductive Tree
  | node (value : Int32) (children : List Tree)

namespace Tree

instance : Inhabited Tree := ⟨node 0 []⟩

/-- The number at the root. -/
def value : Tree → Int32
  | node v _ => v

/-- The trees below the root. -/
def children : Tree → List Tree
  | node _ ts => ts

mutual

/-- The fields of a tree. Too many trees below it are refused before anything is written. -/
def write : Tree → Write Unit
  | node v ts => do
    if 2 ^ 31 ≤ ts.length then throw (.invalidLength .array ts.length (← get).position)
    Write.scalar (.int32 v)
    Write.scalar (.int32 (.ofNat ts.length))
    writeAll ts

/-- The fields of trees, in order. -/
def writeAll : List Tree → Write Unit
  | [] => return
  | t :: ts => do
    write t
    writeAll ts

end

/-- The fields of a tree that may be the outermost of `room` levels. A bad number of trees is
reported behind the number. -/
def read : (room : Nat) → Read Tree
  | 0 => do throw (.tooDeep (← get).limits.maxDepth)
  | room + 1 => do
    let v ← Read.int32
    let k ← Read.count (← Read.int32).toInt
    return node v (← Read.times k (Read.level (read room)))

instance : Message Tree where
  catalog := Builtin.catalog
  schema := Builtin.tree
  write
  read

end Tree

end MessageWire
