import Reckoner.Operation.Arithmetic
import Reckoner.Proofs.Double.Alike
import Reckoner.Proofs.Outcome

set_option autoImplicit false

namespace Reckoner

open Double

/-- Both fail, or both have values and these are alike. -/
def Agrees {ε ε' : Type} : Except ε Float → Except ε' Float → Prop := Matches Alike

variable {ε ε' : Type} {x x' y y' : Float}

theorem Agrees.refl (r : Except ε Float) : Agrees r r := by
  cases r with
  | error e => trivial
  | ok x => exact Alike.refl x

theorem beq_zero_eq (zero : magnitude x = 0) : (x == 0) = true := beq_zero_iff.2 zero

theorem beq_zero_eq_false (nonzero : magnitude x ≠ 0) : (x == 0) = false := by
  rw [Bool.eq_false_iff]
  exact fun h => nonzero (beq_zero_iff.1 h)

theorem isNaN_of_zero (zero : magnitude x = 0) : x.isNaN = false := by
  rw [isNaN_eq_false_iff, zero]
  exact Nat.zero_le _

theorem alike_divide (h : Alike x x') (nonzero : magnitude y ≠ 0) :
    Alike (divide x y) (divide x' y) := by
  unfold divide
  simp only [beq_zero_eq_false nonzero, h.isInf_eq, Bool.and_false, Bool.false_eq_true, if_false]
  split
  · exact .refl _
  · split
    · exact .refl _
    · exact h.div_right nonzero

theorem power_of_zero_base (zero : magnitude x = 0) (number : y.isNaN = false)
    (nonzero : magnitude y ≠ 0) :
    power x y = if y > 0 then .ok 0 else .error (.zeroToNegative x y) := by
  simp only [power, powerBy, isNaN_of_zero zero, number, beq_zero_eq zero, beq_zero_eq_false nonzero,
    Bool.or_self, Bool.and_false, Bool.false_eq_true, if_false, if_true]

theorem power_of_zero_exponent (number : x.isNaN = false) (zero : magnitude y = 0) :
    power x y = if x == 0 then .error (.zeroToZero x y) else .ok 1 := by
  simp only [power, powerBy, isNaN_of_zero zero, number, beq_zero_eq zero, Bool.or_self, Bool.and_true,
    Bool.false_eq_true, if_false, if_true]

theorem power_of_nan (nan : x.isNaN = true ∨ y.isNaN = true) : power x y = .ok Double.nan := by
  unfold power powerBy
  rw [if_pos (by simpa using nan)]

theorem agrees_power (hx : Alike x x') (hy : Alike y y') :
    Agrees (power x y) (power x' y') := by
  by_cases nan : x.isNaN = true ∨ y.isNaN = true
  · rw [power_of_nan nan, power_of_nan (by rwa [← hx.isNaN_eq, ← hy.isNaN_eq])]
    exact .refl _
  · simp only [not_or, Bool.not_eq_true] at nan
    rcases hy with rfl | ⟨zero, zero'⟩
    · rcases hx with rfl | ⟨zero, zero'⟩
      · exact .refl _
      · by_cases none : magnitude y = 0
        · rw [power_of_zero_exponent (isNaN_of_zero zero) none, if_pos (beq_zero_eq zero),
            power_of_zero_exponent (isNaN_of_zero zero') none, if_pos (beq_zero_eq zero')]
          trivial
        · rw [power_of_zero_base zero nan.2 none, power_of_zero_base zero' nan.2 none]
          split
          · exact Alike.refl _
          · trivial
    · rw [power_of_zero_exponent nan.1 zero,
        power_of_zero_exponent (by rw [← hx.isNaN_eq]; exact nan.1) zero', hx.beq_zero]
      split
      · trivial
      · exact Alike.refl _

theorem root_of_nan (nan : x.isNaN = true ∨ y.isNaN = true) : root x y = .ok Double.nan := by
  unfold root rootBy
  rw [if_pos (by simpa using nan)]

theorem root_of_zero_index (zero : magnitude x = 0) (number : y.isNaN = false) :
    root x y = .error (.zeroIndex x y) := by
  simp only [root, rootBy, isNaN_of_zero zero, number, beq_zero_eq zero, Bool.or_self, Bool.false_eq_true,
    if_false, if_true]

theorem root_of_zero_radicand (number : x.isNaN = false) (nonzero : magnitude x ≠ 0)
    (zero : magnitude y = 0) :
    root x y = if x > 0 then .ok 0 else .error (.zeroRadicand x y) := by
  simp only [root, rootBy, isNaN_of_zero zero, number, beq_zero_eq zero, beq_zero_eq_false nonzero,
    Bool.or_self, Bool.false_eq_true, if_false, if_true]

theorem agrees_root (hx : Alike x x') (hy : Alike y y') : Agrees (root x y) (root x' y') := by
  by_cases nan : x.isNaN = true ∨ y.isNaN = true
  · rw [root_of_nan nan, root_of_nan (by rwa [← hx.isNaN_eq, ← hy.isNaN_eq])]
    exact .refl _
  · simp only [not_or, Bool.not_eq_true] at nan
    rcases hx with rfl | ⟨zero, zero'⟩
    · rcases hy with rfl | ⟨zero, zero'⟩
      · exact .refl _
      · by_cases none : magnitude x = 0
        · rw [root_of_zero_index none nan.2, root_of_zero_index none (isNaN_of_zero zero')]
          trivial
        · rw [root_of_zero_radicand nan.1 none zero, root_of_zero_radicand nan.1 none zero']
          split
          · exact Alike.refl _
          · trivial
    · rw [root_of_zero_index zero nan.2,
        root_of_zero_index zero' (by rw [← hy.isNaN_eq]; exact nan.2)]
      trivial

/-- The sign of a zero does not matter to an operation, unless it divides by zero. -/
theorem agrees_operate (operator : Operator) (hx : Alike x x') (hy : Alike y y')
    (divisor : operator = .divide → magnitude y ≠ 0) :
    Agrees (operate operator x y) (operate operator x' y') := by
  cases operator with
  | root => exact agrees_root hx hy
  | power => exact agrees_power hx hy
  | multiply => exact hx.mul hy
  | divide =>
    have nonzero := divisor rfl
    rcases hy with rfl | ⟨zero, _⟩
    · exact alike_divide hx nonzero
    · contradiction
  | add => exact hx.add hy
  | subtract => exact hx.sub hy

end Reckoner
