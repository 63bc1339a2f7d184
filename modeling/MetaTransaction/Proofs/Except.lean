/-!
# Results of checks

When a computation that can fail succeeds, step by step.
-/

namespace MetaTransaction.Except

variable {ε ε' α β : Type}

/-- A computation succeeds just when both of its parts do. Chains of checks are taken apart with
this, one check at a time. -/
theorem bind_eq_ok_iff {x : Except ε α} {f : α → Except ε β} {b : β} :
    (x >>= f) = .ok b ↔ ∃ a, x = .ok a ∧ f a = .ok b := by
  cases x <;> simp [bind, Except.bind]

@[simp] theorem mapError_ok {f : ε → ε'} {a : α} : (Except.ok a).mapError f = .ok a :=
  rfl

@[simp] theorem mapError_error {f : ε → ε'} {e : ε} :
    (Except.error e : Except ε α).mapError f = .error (f e) :=
  rfl

@[simp] theorem mapError_eq_ok_iff {x : Except ε α} {f : ε → ε'} {a : α} :
    x.mapError f = .ok a ↔ x = .ok a := by
  cases x <;> simp

theorem map_eq_ok_iff {x : Except ε α} {f : α → β} {b : β} :
    x.map f = .ok b ↔ ∃ a, x = .ok a ∧ f a = b := by
  cases x <;> simp [Except.map]

@[simp] theorem map_eq_error_iff {x : Except ε α} {f : α → β} {e : ε} :
    x.map f = .error e ↔ x = .error e := by
  cases x <;> simp [Except.map]

/-- A check that refuses what it is made for: what comes after it only has to be looked at where the
check does not apply. -/
theorem refuse_eq_ok_iff {p : Prop} [Decidable p] {e : ε} {f : PUnit → Except ε α}
    {x : Except ε α} {a : α} :
    (if p then (throw e >>= f) else x) = .ok a ↔ ¬ p ∧ x = .ok a := by
  by_cases refused : p
  · rw [if_pos refused]
    exact iff_of_false nofun fun passes => passes.1 refused
  · simp [refused]

end MetaTransaction.Except
