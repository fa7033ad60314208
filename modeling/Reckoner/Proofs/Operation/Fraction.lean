import Reckoner.Operation.Fraction
import Mathlib

set_option autoImplicit false

namespace Reckoner.Fraction

variable {bound d : Nat} {c : Convergents} {n : Int} {x : Rat}

theorem convergents_le (first : c.q₀ ≤ bound) (second : c.q₁ ≤ bound) :
    (convergents bound c n d).q₀ ≤ bound ∧ (convergents bound c n d).q₁ ≤ bound := by
  fun_induction convergents bound c n d with
  | case1 => exact ⟨first, second⟩
  | case2 => exact ⟨first, second⟩
  | case3 c n d _ a q within ih => exact ih second (Nat.le_of_not_lt within)

/-- Reducing a fraction does not raise its denominator; without one it is zero, over one. -/
theorem den_mkRat_le (positive : 0 < bound) (within : d ≤ bound) : (mkRat n d).den ≤ bound := by
  rw [Rat.den_mkRat]
  split
  · exact positive
  · exact Nat.le_trans (Nat.div_le_self _ _) within

theorem den_limitDenominator_le (positive : 0 < bound) (x : Rat) :
    (limitDenominator bound x).den ≤ bound := by
  unfold limitDenominator
  split
  next small => exact small
  next =>
    have limits := convergents_le (c := ⟨0, 1, 1, 0⟩) (n := x.num) (d := x.den) positive
      (Nat.zero_le bound)
    generalize convergents bound ⟨0, 1, 1, 0⟩ x.num x.den = c at limits
    have room : (bound - c.q₀) / c.q₁ * c.q₁ ≤ bound - c.q₀ := Nat.div_mul_le_self _ _
    dsimp only
    split
    · exact den_mkRat_le positive limits.2
    · exact den_mkRat_le positive (by omega)

end Reckoner.Fraction
