import Mathlib.Logic.Basic

/-! Computations that answer with a result or an error. -/
namespace Except

/-- A sequence has a result if both of its parts have one. -/
theorem bind_eq_ok {ε α β : Type*} {first : Except ε α} {rest : α → Except ε β} {b : β} :
    first.bind rest = .ok b ↔ ∃ a, first = .ok a ∧ rest a = .ok b := by
  cases first with
  | error e => simp [Except.bind]
  | ok a => simp [Except.bind]

end Except
