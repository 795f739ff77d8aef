import MessageWire.Wire.Error

/-!
# Actions in sequence

Reading and writing are actions on a state that may fail. These lemmas take a sequence of actions
apart, so that no proof has to open the sequencing itself.

* `bind_ok`, `bind_error`, `bind_eq_ok_iff`: an action and what comes after it;
* `throw_bind`: nothing comes after a failure.
-/

namespace MessageWire

open EStateM (Result)

variable {σ α β : Type} {act : EStateM WireError σ α} {next : α → EStateM WireError σ β}
  {s s' : σ}

theorem bind_ok {a : α} (h : act s = .ok a s') : (act >>= next) s = next a s' := by
  change EStateM.bind act next s = next a s'
  rw [EStateM.bind, h]

theorem bind_error {e : WireError} (h : act s = .error e s') :
    (act >>= next) s = .error e s' := by
  change EStateM.bind act next s = .error e s'
  rw [EStateM.bind, h]

/-- A sequence succeeds when both of its parts do. -/
theorem bind_eq_ok_iff {b : β} {s'' : σ} :
    (act >>= next) s = .ok b s'' ↔ ∃ a s', act s = .ok a s' ∧ next a s' = .ok b s'' := by
  constructor
  · intro h
    cases ha : act s with
    | ok a s' => exact ⟨a, s', rfl, by rwa [bind_ok ha] at h⟩
    | error e s' =>
      rw [bind_error ha] at h
      cases h
  · rintro ⟨a, s', ha, hb⟩
    rw [bind_ok ha, hb]

theorem throw_bind (e : WireError) :
    ((throw e : EStateM WireError σ α) >>= next) = throw e := rfl

@[simp] theorem pure_apply (a : α) : (pure a : EStateM WireError σ α) s = .ok a s := rfl

@[simp] theorem throw_apply (e : WireError) :
    (throw e : EStateM WireError σ α) s = .error e s := rfl

end MessageWire
