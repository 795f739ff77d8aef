import MessageWire.Proofs.Wire.Nesting
import MessageWire.Typed.Tree

/-!
# The depth of trees

A tree is read by hand, and the trees below it in the same way, each on a level of its own.

* `Tree.fields`, `Tree.nests_fields`: a tree, given the reader of the trees below;
* `Tree.read_eq`, `Tree.program_read`: trees that may be so many inside each other;
* **`Tree.nested_eq`**: the reader needs no bound of its own.
-/

namespace MessageWire.Tree

/-- The fields of a tree, given the reader of those of the trees below. -/
def fields (inside : Read.Readers fun _ : Unit => Tree) : Read.Readers fun _ : Unit => Tree :=
  fun i => do
    let v ← Read.int32
    let k ← Read.count (← Read.int32).toInt
    return node v (← Read.times k (Read.level (inside i)))

theorem nests_fields (i : Unit) : Read.Nests fun inside => fields inside i := by
  have hP : Read.Closed (Read.Program False) := Read.Program.closed
  have hcount (k : Int32) : Read.Program False _ (Read.count k.toInt) :=
    hP.bind hP.position fun offset => hP.countAt _ offset
  refine .bind (.program hP.int32) fun v => .bind (.program hP.int32) fun k => ?_
  refine .bind (.program (hcount k)) fun m => ?_
  exact ((Read.Nests.level (A := fun _ => Tree) i).times m).map (node v)

theorem read_eq (room : Nat) : read room = fields^[room] (fun _ => Read.refused) () := by
  induction room with
  | zero => rfl
  | succ room ih =>
    rw [Function.iterate_succ_apply', fields, ← ih]
    rfl

theorem program_read (room : Nat) : Read.Program False _ (read room) := by
  rw [read_eq]
  exact Read.program_iterate nests_fields room ()

/-- **The reader of trees needs no bound of its own.** -/
theorem nested_eq : Read.nested Tree = Read.level (Read.whole fields ()) := by
  rw [← Read.level_room nests_fields (fun _ => Read.refused) ()]
  simp only [← read_eq]
  rfl

end MessageWire.Tree
