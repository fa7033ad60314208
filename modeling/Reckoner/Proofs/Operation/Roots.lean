import Reckoner.Operation.Arithmetic
import Reckoner.Proofs.Double.Reciprocal
import Reckoner.Proofs.Evaluation.Faults

set_option autoImplicit false

namespace Reckoner

open Double

variable {pow : Float → Float → Float} {index radicand x : Float} {r s : Except Fault Float}

/-- Both have the same value, or neither is defined for its operands. -/
def SameOutcome (r s : Except Fault Float) : Prop :=
  (∃ x, r = .ok x ∧ s = .ok x) ∨
    ∃ f g : Fault, r = .error f ∧ s = .error g ∧ f.kind = .domain ∧ g.kind = .domain

/-- An odd root of a negative number that is not to be had as a power with a whole exponent. -/
structure IsOddRoot (index radicand : Float) : Prop where
  negative : radicand < 0
  finite : (1 / index).isFinite = true
  fraction : isWhole (1 / index) = false
  odd : isOdd index = true

/-- What powers and roots do with exponents that any number can have, and with positive bases. -/
theorem powerBy_of_wide (number : x.isNaN = false) (nonzero : (x == 0) = false) {y : Float}
    (number' : y.isNaN = false) (other : (y == 0) = false)
    (wide : (isWhole y || y.isInf || decide (0 < x)) = true) :
    powerBy pow x y = .ok (powerOrNan pow x y) := by
  unfold powerBy
  simp only [number, number', nonzero, other, Bool.or_self, Bool.and_self, Bool.false_eq_true, if_false]
  exact if_pos wide

/-- A power with the exponent zero is one. -/
theorem powerBy_of_zero (number : x.isNaN = false) (nonzero : (x == 0) = false) {y : Float}
    (number' : y.isNaN = false) (zero : (y == 0) = true) : powerBy pow x y = .ok 1 := by
  unfold powerBy
  simp only [number, number', nonzero, zero, Bool.or_self, Bool.false_and, Bool.false_eq_true, if_false,
    if_true]

theorem powerBy_of_narrow (number : x.isNaN = false) (nonzero : (x == 0) = false) {y : Float}
    (number' : y.isNaN = false) (other : (y == 0) = false)
    (narrow : (isWhole y || y.isInf || decide (0 < x)) = false) :
    powerBy pow x y = .error (.negativeToFraction x y) := by
  unfold powerBy
  simp only [number, number', nonzero, other, Bool.or_self, Bool.and_self, Bool.false_eq_true, if_false]
  exact if_neg (by simpa using narrow)

/-- A root of a number other than zero, with an index other than zero. -/
theorem rootBy_of_numbers (number : index.isNaN = false) (nonzero : (index == 0) = false)
    (number' : radicand.isNaN = false) (nonzero' : (radicand == 0) = false) :
    rootBy pow index radicand =
      if (isWhole (1 / index) || (1 / index).isInf || decide (0 < radicand)) = true then
        .ok (powerOrNan pow radicand (1 / index))
      else if isOdd index = true then .ok (-powerOrNan pow (-radicand) (1 / index))
      else .error (.negativeRadicand index radicand) := by
  unfold rootBy
  simp only [number, number', nonzero, nonzero', Bool.or_self, Bool.false_eq_true, if_false]

/-- Where the exponent is zero no base is special. -/
theorem powerOrNan_of_zero (flat : ∀ x y, (y == 0) = true → pow x y = 1) {y : Float}
    (zero : (y == 0) = true) : powerOrNan pow x y = 1 := by
  have size := beq_zero_iff.1 zero
  have finite : y.isInf = false := by
    rw [Bool.eq_false_iff]
    intro infinite
    have large := isInf_iff.1 infinite
    rw [size] at large
    exact absurd large (by decide)
  unfold powerOrNan
  rw [finite, Bool.and_false, if_neg Bool.false_ne_true, flat x y zero]

/-- A root and the power to the reciprocal of its index have the same outcome, but for odd roots of
negative numbers. These are the opposites of powers of the opposite number. -/
theorem rootBy_powerBy (flat : ∀ x y, (y == 0) = true → pow x y = 1)
    (number : index.isNaN = false) (nonzero : (index == 0) = false)
    (number' : radicand.isNaN = false) (nonzero' : (radicand == 0) = false) :
    (¬ IsOddRoot index radicand →
      SameOutcome (rootBy pow index radicand) (powerBy pow radicand (1 / index))) ∧
    (IsOddRoot index radicand →
      ∃ x, powerBy pow (-radicand) (1 / index) = .ok x ∧ rootBy pow index radicand = .ok (-x)) := by
  have exponent := isNaN_reciprocal number nonzero
  rw [rootBy_of_numbers number nonzero number' nonzero']
  constructor
  · intro plain
    by_cases zero : (1 / index == 0) = true
    · have whole : (isWhole (1 / index) || (1 / index).isInf || decide (0 < radicand)) = true := by
        rw [isWhole_of_zero zero]
        rfl
      rw [if_pos whole, powerBy_of_zero number' nonzero' exponent zero, powerOrNan_of_zero flat zero]
      exact .inl ⟨1, rfl, rfl⟩
    · have other : (1 / index == 0) = false := by simpa using zero
      by_cases wide : (isWhole (1 / index) || (1 / index).isInf || decide (0 < radicand)) = true
      · rw [if_pos wide, powerBy_of_wide number' nonzero' exponent other wide]
        exact .inl ⟨_, rfl, rfl⟩
      · have narrow := (Bool.not_eq_true _).mp wide
        have even : ¬ isOdd index = true := by
          intro odd
          simp only [Bool.or_eq_false_iff, decide_eq_false_iff_not] at narrow
          obtain ⟨⟨fraction, bounded⟩, negative⟩ := narrow
          refine plain ⟨(lt_zero_or_zero_lt number' nonzero').resolve_right negative, ?_, fraction, odd⟩
          rw [isFinite_iff]
          have limit := isNaN_eq_false_iff.1 exponent
          have finite := mt isInf_iff.2 (by simpa using bounded)
          omega
        rw [if_neg wide, if_neg even, powerBy_of_narrow number' nonzero' exponent other narrow]
        exact .inr ⟨_, _, rfl, rfl, rfl, rfl⟩
  · rintro ⟨negative, finite, fraction, odd⟩
    have bounded : (1 / index).isInf = false := by
      rw [Bool.eq_false_iff]
      intro infinite
      have size := isInf_iff.1 infinite
      have limit := isFinite_iff.1 finite
      omega
    have below : ¬ 0 < radicand := not_zero_lt_of_lt_zero negative
    have narrow : ¬ (isWhole (1 / index) || (1 / index).isInf || decide (0 < radicand)) = true := by
      simp [fraction, bounded, below]
    have other : (1 / index == 0) = false := by
      rw [Bool.eq_false_iff]
      intro zero
      rw [isWhole_of_zero zero] at fraction
      contradiction
    have opposite : (-radicand).isNaN = false := by
      rw [isNaN_eq_false_iff, magnitude_neg]
      exact isNaN_eq_false_iff.1 number'
    have opposite' : (-radicand == 0) = false := by
      rw [Bool.eq_false_iff]
      intro zero
      have size := beq_zero_iff.1 zero
      rw [magnitude_neg] at size
      rw [beq_zero_iff.2 size] at nonzero'
      contradiction
    have wide : (isWhole (1 / index) || (1 / index).isInf || decide (0 < -radicand)) = true := by
      simp [zero_lt_neg number' negative]
    rw [if_neg narrow, if_pos odd, powerBy_of_wide opposite opposite' exponent other wide]
    exact ⟨_, rfl, rfl⟩

def samplePow (x y : Float) : Float := if y == 0 then 1 else if x == 8 then 2 else 0

/-- The third root of minus eight is minus two, and with an infinite index the exponent is zero. -/
theorem rootBy_powerBy_cube :
    ((∀ x y, (y == 0) = true → samplePow x y = 1) ∧ IsOddRoot 3 (-8) ∧ ¬ IsOddRoot (infinity false) (-8)) ∧
      (∃ x, powerBy samplePow (- -8) (1 / 3) = .ok x ∧ rootBy samplePow 3 (-8) = .ok (-x)) ∧
      rootBy samplePow 3 (-8) = .ok (-2) ∧
      SameOutcome (rootBy samplePow (infinity false) (-8)) (powerBy samplePow (-8) (1 / infinity false)) := by
  have flat : ∀ x y, (y == 0) = true → samplePow x y = 1 := fun x y zero => if_pos zero
  have odd : IsOddRoot 3 (-8) := ⟨by decide, by decide +kernel, by decide +kernel, by decide +kernel⟩
  have plain : ¬ IsOddRoot (infinity false) (-8) := by
    intro odd
    exact absurd odd.fraction (by decide +kernel)
  refine ⟨⟨flat, odd, plain⟩, ?_, by decide +kernel, ?_⟩
  · exact (rootBy_powerBy flat (by decide) (by decide) (by decide) (by decide)).2 odd
  · exact (rootBy_powerBy flat (by decide) (by decide) (by decide) (by decide)).1 plain

end Reckoner
