/-!
# Results of steps

A step gives a value or an error, and of several steps the first error counts.

* `bind_eq_ok`, `bind_eq_error`   a result of several steps is one result of each;
* `bind_congr_ok`                 steps with the same values have the same results;
* `map_eq_ok`, `mapError_eq_ok`   the same of a renamed value and of a renamed error.
-/

namespace Citations

variable {ε δ α β : Type} {x : Except ε α}

theorem bind_eq_ok {f : α → Except ε β} {b : β} :
    x >>= f = .ok b ↔ ∃ a, x = .ok a ∧ f a = .ok b := by
  cases x with
  | error e => simp [bind, Except.bind]
  | ok a => simp [bind, Except.bind]

theorem bind_eq_error {f : α → Except ε β} {e : ε} :
    x >>= f = .error e ↔ x = .error e ∨ ∃ a, x = .ok a ∧ f a = .error e := by
  cases x with
  | error e' => simp [bind, Except.bind]
  | ok a => simp [bind, Except.bind]

/-- What comes behind a step counts only where the step gives a value. -/
theorem bind_congr_ok {f g : α → Except ε β} (h : ∀ a, x = .ok a → f a = g a) :
    x >>= f = x >>= g := by
  cases x with
  | error e => rfl
  | ok a => exact h a rfl

theorem map_eq_ok {f : α → β} {b : β} : f <$> x = .ok b ↔ ∃ a, x = .ok a ∧ f a = b := by
  rw [map_eq_pure_bind, bind_eq_ok]
  simp [pure, Except.pure]

theorem mapError_eq_ok {f : ε → δ} {a : α} : x.mapError f = .ok a ↔ x = .ok a := by
  cases x with
  | error e =>
    constructor
    · intro h
      cases h
    · intro h
      cases h
  | ok a' =>
    constructor
    · intro h
      have h : Except.ok a' = (Except.ok a : Except δ α) := h
      rw [Except.ok.inj h]
    · intro h
      rw [Except.ok.inj h]
      rfl

end Citations
