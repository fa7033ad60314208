import Reckoner.Proofs.Double.One

set_option autoImplicit false

namespace Reckoner.Double

open Float.Model Float.Model.UnpackedFloat

variable {x : Float}

/-- What is packed is NaN only if it was NaN before. -/
theorem magnitude_packed_le {w : UnpackedFloat} (number : w ≠ .notANumber) :
    magnitude (packed w) ≤ infinityBits := by
  cases w with
  | notANumber => contradiction
  | infinity s => cases s <;> decide
  | zero s => cases s <;> decide
  | finite s m e positive =>
    obtain ⟨negative, rfl⟩ := exists_signOf s
    have fields (f : BitVec 11) (n : BitVec 52) (below : f.toNat < 2047)
        (same : UnpackedFloat.pack Format.binary64 (.finite (signOf negative) m e positive) =
          packComponents Format.binary64 (signOf negative) f n) :
        magnitude (packed (.finite (signOf negative) m e positive)) ≤ infinityBits := by
      have bits : (packed (.finite (signOf negative) m e positive)).toBits.toNat =
          joined negative (2 ^ 52 * f.toNat + n.toNat) := by
        rw [toNat_toBits_packed, same, toNat_packComponents_signOf]
      have small := n.isLt
      rw [magnitude_of_toNat bits (by omega)]
      unfold infinityBits
      omega
    by_cases large : 2 ^ 11 ≤ (e + 1023 + 52).toNat + 1
    · have infinite : packed (.finite (signOf negative) m e positive) =
          packed (.infinity (signOf negative)) := by
        have same : UnpackedFloat.pack Format.binary64 (.finite (signOf negative) m e positive) =
            UnpackedFloat.pack Format.binary64 (.infinity (signOf negative)) := by
          rw [pack_finite, if_pos large]
          rfl
        unfold packed Float.Model.pack
        simp only [same]
      rw [infinite]
      cases negative <;> decide
    · by_cases normal : m.log2 + 1 = 53
      · refine fields (.ofNat 11 (e + 1023 + 52).toNat) (.ofNat 52 m) ?_ ?_
        · rw [BitVec.toNat_ofNat]
          omega
        · rw [pack_finite, if_neg large, if_pos normal]
      · refine fields (0#11) (.ofNat 52 m) (by decide) ?_
        rw [pack_finite, if_neg large, if_neg normal]

theorem roundWithAccuracy_ne_notANumber (s : Sign) (m : Nat) (e : Int) (accuracy : Accuracy) :
    roundWithAccuracy Format.binary64 s m e accuracy ≠ .notANumber := by
  unfold roundWithAccuracy
  dsimp only
  split <;> nofun

/-- The reciprocal of a number that is not zero is a number. -/
theorem isNaN_reciprocal (number : x.isNaN = false) (nonzero : (x == 0) = false) :
    (1 / x).isNaN = false := by
  rw [isNaN_eq_false_iff] at number ⊢
  have quotient : 1 / x =
      packed (UnpackedFloat.div Format.binary64 (1 : Float).toModel.unpack x.toModel.unpack) := rfl
  rw [quotient, unpack_one]
  apply magnitude_packed_le
  rcases class_cases x with above | infinite | zero | ⟨_, finite⟩
  · omega
  · rw [unpack_of_infinite infinite]
    nofun
  · rw [beq_zero_iff.2 zero] at nonzero
    contradiction
  · obtain ⟨m, e, positive, shape⟩ := unpack_of_finite (by omega) finite
    rw [shape]
    exact roundWithAccuracy_ne_notANumber _ _ _ _

theorem zero_lt_iff :
    0 < x ↔ isNegative x = false ∧ magnitude x ≠ 0 ∧ magnitude x ≤ infinityBits := by
  rw [lt_iff_compare, unpack_zero]
  rcases class_cases x with above | infinite | zero | ⟨nonzero, finite⟩
  · rw [unpack_of_nan above]
    exact iff_of_false (by decide) (by omega)
  · rw [unpack_of_infinite infinite, infinite]
    cases isNegative x <;> decide
  · rw [unpack_of_zero zero, zero]
    cases isNegative x <;> decide
  · obtain ⟨m, e, positive, shape⟩ := unpack_of_finite nonzero finite
    rw [shape]
    cases isNegative x
    · exact iff_of_true rfl ⟨rfl, nonzero, by omega⟩
    · exact iff_of_false nofun nofun

/-- A number is positive, zero or negative. -/
theorem lt_zero_or_zero_lt (number : x.isNaN = false) (nonzero : (x == 0) = false) :
    x < 0 ∨ 0 < x := by
  have finite := isNaN_eq_false_iff.1 number
  have other : magnitude x ≠ 0 := by
    intro zero
    rw [beq_zero_iff.2 zero] at nonzero
    contradiction
  rw [lt_zero_iff, zero_lt_iff]
  cases isNegative x
  · exact .inr ⟨rfl, other, finite⟩
  · exact .inl ⟨rfl, other⟩

theorem not_zero_lt_of_lt_zero (negative : x < 0) : ¬ 0 < x := by
  intro positive
  have sign := (zero_lt_iff.1 positive).1
  rw [(lt_zero_iff.1 negative).1] at sign
  contradiction

theorem zero_lt_neg (number : x.isNaN = false) (negative : x < 0) : 0 < -x := by
  have finite := isNaN_eq_false_iff.1 number
  obtain ⟨sign, nonzero⟩ := lt_zero_iff.1 negative
  rw [zero_lt_iff, isNegative_neg finite, magnitude_neg, sign]
  exact ⟨rfl, nonzero, finite⟩

theorem isWhole_of_zero (zero : (x == 0) = true) : isWhole x = true := by
  have none := beq_zero_iff.1 zero
  have finite : x.isFinite = true := by
    rw [isFinite_iff, none]
    decide
  have units_zero : units 0 = 0 := by decide
  unfold isWhole
  rw [finite, none, units_zero, Nat.zero_mod]
  rfl

end Reckoner.Double
