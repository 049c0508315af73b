/-!
# Outcomes of several steps

Scanning, parsing, reading and writing are sequences of steps that may fail. A sequence succeeds only
if each of its steps does, and then every later step starts from what the one before it gave.

## Main results

* `bind_eq_ok_iff`, `bind_eq_error_iff`: a step that follows another.
* `map_eq_ok_iff`: a step whose result is changed.
* `exists_of_isOk`, `exists_of_any_toOption`: a step that is known to succeed by a test.
-/

namespace StackScript

variable {ε α β : Type}

/-- A step that follows another succeeds only if both do. -/
theorem bind_eq_ok_iff {x : Except ε α} {f : α → Except ε β} {b : β} :
    (x >>= f) = .ok b ↔ ∃ a, x = .ok a ∧ f a = .ok b := by
  cases x <;> simp [bind, Except.bind]

/-- A step that follows another fails if either does. -/
theorem bind_eq_error_iff {x : Except ε α} {f : α → Except ε β} {e : ε} :
    (x >>= f) = .error e ↔ x = .error e ∨ ∃ a, x = .ok a ∧ f a = .error e := by
  cases x <;> simp [bind, Except.bind]

theorem bind_eq_error_of_error {x : Except ε α} {f : α → Except ε β} {e : ε} (h : x = .error e) :
    (x >>= f) = .error e :=
  bind_eq_error_iff.mpr (.inl h)

theorem bind_eq_error_of_ok {x : Except ε α} {f : α → Except ε β} {e : ε} {a : α} (hx : x = .ok a)
    (h : f a = .error e) : (x >>= f) = .error e :=
  bind_eq_error_iff.mpr (.inr ⟨a, hx, h⟩)

/-- A step whose result is changed succeeds only if the step does. -/
theorem map_eq_ok_iff {x : Except ε α} {f : α → β} {b : β} :
    x.map f = .ok b ↔ ∃ a, x = .ok a ∧ f a = b := by
  cases x <;> simp [Except.map]

theorem exists_of_isOk {x : Except ε α} (h : x.isOk = true) : ∃ a, x = .ok a := by
  cases x with
  | error e => cases h
  | ok a => exact ⟨a, rfl⟩

/-- A step whose result passes a test succeeds. -/
theorem exists_of_any_toOption {x : Except ε α} {p : α → Bool} (h : x.toOption.any p = true) :
    ∃ a, x = .ok a ∧ p a = true := by
  cases x with
  | error e => cases h
  | ok a => exact ⟨a, rfl, h⟩

end StackScript
