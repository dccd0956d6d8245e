import Mathlib.Logic.Basic

/-!
# Sequences of checks

A fallible computation in `Except` is a sequence of checks. It succeeds exactly when every check
passes, so a fact about the success of a sequence is read off the checks one by one.
-/

namespace Except

universe u v

variable {ε : Type u} {α β : Type v} {e : ε} {x : Except ε α} {f : α → Except ε β} {b : β}

theorem ok_bind (a : α) (f : α → Except ε β) : (.ok a >>= f) = f a := rfl

theorem bind_eq_ok : (x >>= f) = .ok b ↔ ∃ a, x = .ok a ∧ f a = .ok b := by
  cases x with
  | error e => simp [bind, Except.bind]
  | ok a => simp [bind, Except.bind]

/-- A check that refuses under `p` succeeds when `p` fails and the rest succeeds. -/
theorem guard_eq_ok {p : Prop} [Decidable p] {y : Except ε β} :
    (if p then .error e else y) = .ok b ↔ ¬ p ∧ y = .ok b := by
  by_cases hp : p
  · simp [hp]
  · simp [hp]

end Except
