import MessageWire.Instance.Decode
import MessageWire.Proofs.Wire.Closed

/-!
# Properties of the decoder

What holds of all readers holds of the decoder of every schema, which is a reader by recursion on
kinds, on fields and on the levels that are left.

* `Read.Closed.kind`, `Read.Closed.fields`, `Read.Closed.message`: values, given the messages
  inside, and messages by the levels that are left;
* **`Read.Closed.decode`**: a whole message.
-/

namespace MessageWire.Read.Closed

variable {n : Nat} {P : ∀ α : Type, Read α → Prop} {nested : Fin n → Read (Value n)}
  {S : Schema n} {done : List (Value n × Nat)}

theorem counted (hP : Closed P) (c : String) : P Nat (Read.counted S done c) := by
  rw [Read.counted]
  cases Read.count? S done c with
  | none => exact hP.throw nofun
  | some p => exact hP.countAt p.1 p.2

/-- **A value of a kind**, given the nested messages. -/
theorem kind (hP : Closed P) (hn : ∀ t, P (Value n) (nested t)) (kind : Kind n) :
    P (Value n) (Read.kind nested S done kind) := by
  induction kind with
  | primitive p => exact hP.map (hP.scalar p) _
  | message t => exact hn t
  | array element x ih =>
    cases x with
    | fixed size => exact hP.map (hP.times ih _) _
    | counted c => exact hP.bind (hP.counted c) fun k => hP.map (hP.times ih k) _

theorem fields (hP : Closed P) (hn : ∀ t, P (Value n) (nested t)) (fs : List (Field n)) :
    P (List (Value n × Nat)) (Read.fields nested S done fs) := by
  induction fs generalizing done with
  | nil => exact hP.pure done
  | cons f fs ih =>
    exact hP.bind hP.position fun offset => hP.bind (hP.kind hn f.kind) fun v => ih

/-- **The values of a message**, by the levels that are left. -/
theorem message (hP : Closed P) (G : Catalog n) (room : Nat) (s : Fin n) :
    P (List (Value n)) (Read.message G room s) := by
  induction room generalizing s with
  | zero => exact hP.limits (fun _ => hP.throw nofun) fun _ _ => rfl
  | succ room ih =>
    have hn (t : Fin n) :
        P (Value n) (Read.level (return Value.message t (← Read.message G room t))) :=
      hP.level (hP.map (ih t) (Value.message t))
    exact hP.map (hP.fields hn (G s).fields) _

/-- **A whole message** of any schema. -/
theorem decode (hP : Closed P) (G : Catalog n) (s : Fin n) :
    P (Instance n) (Instance.decode G s) :=
  hP.bind (hP.expect _ _) fun _ => hP.bind hP.levels fun room =>
    hP.level (hP.map (hP.message G room s) (Instance.mk s))

end MessageWire.Read.Closed
