/-
When a chain of steps succeeds.

A chain succeeds exactly if its first step does and the rest succeeds with what the step gave.
Read from left to right, this takes a successful computation apart step by step.
-/

import Mathlib

namespace Croupier

variable {ε α β : Type}

theorem bind_eq_ok_iff {first : Except ε α} {next : α → Except ε β} {result : β} :
    (first >>= next) = .ok result ↔ ∃ value, first = .ok value ∧ next value = .ok result := by
  cases first with
  | error problem => simp [bind, Except.bind]
  | ok value => simp [bind, Except.bind]

theorem map_eq_ok_iff {first : Except ε α} {change : α → β} {result : β} :
    (change <$> first) = .ok result ↔ ∃ value, first = .ok value ∧ change value = result := by
  cases first with
  | error problem => simp [Functor.map, Except.map]
  | ok value => simp [Functor.map, Except.map]

theorem pure_eq_ok_iff {value result : α} :
    (pure value : Except ε α) = .ok result ↔ value = result := by
  simp [pure, Except.pure]

/-- A chain that begins with a check succeeds if the check does not object and the rest
succeeds. -/
theorem check_eq_ok_iff {objection : Prop} [Decidable objection] {problem : ε}
    {never : α → Except ε β} {rest : Except ε β} {result : β} :
    (if objection then throw problem >>= never else rest) = .ok result ↔
      ¬objection ∧ rest = .ok result := by
  by_cases objects : objection
  · simp [objects, throw, throwThe, MonadExceptOf.throw, bind, Except.bind]
  · simp [objects]

end Croupier
