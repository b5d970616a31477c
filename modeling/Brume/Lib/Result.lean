import Mathlib.Logic.Basic

/-!
# Results that are `ok`

Inversion of the combinators of `Except`.
-/

namespace Lib

namespace Result

variable {ε ε' α β : Type}

theorem bind_ok {r : Except ε α} {f : α → Except ε β} {b : β} :
    r >>= f = .ok b ↔ ∃ a, r = .ok a ∧ f a = .ok b := by
  cases r <;> simp [bind, Except.bind]

theorem map_ok {r : Except ε α} {f : α → β} {b : β} : r.map f = .ok b ↔ ∃ a, r = .ok a ∧ f a = b := by
  cases r <;> simp [Except.map]

theorem mapError_ok {r : Except ε α} {f : ε → ε'} {a : α} : r.mapError f = .ok a ↔ r = .ok a := by
  cases r with
  | error e =>
    constructor
    · intro h
      cases h
    · intro h
      cases h
  | ok x =>
    constructor
    · intro h
      cases h
      rfl
    · intro h
      cases h
      rfl

end Result

end Lib
