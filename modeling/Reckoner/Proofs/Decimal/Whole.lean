import Reckoner.Proofs.Decimal.Places

set_option autoImplicit false

namespace Reckoner.Double

variable {x : Float} {places : Int}

theorem isWhole_iff :
    isWhole x = true ↔ x.isFinite = true ∧ ∃ k, units (magnitude x) = k * unit := by
  unfold isWhole
  rw [Bool.and_eq_true, beq_iff_eq, ← Nat.dvd_iff_mod_eq_zero, dvd_iff_exists_eq_mul_left]

theorem units_of_normal {m : Nat} (low : 2 ^ 52 ≤ m) (high : m < 2 ^ 53) (s : Nat) :
    units (s * 2 ^ 52 + m) = m * 2 ^ s := by
  have mantissa : (s * 2 ^ 52 + m) % 2 ^ 52 + 2 ^ 52 = m := by omega
  have exponent : (s * 2 ^ 52 + m) / 2 ^ 52 - 1 = s := by omega
  unfold units
  rw [if_neg (by omega), mantissa, exponent]

/-- Below 2^53 a whole number is a double: its digits are moved to the upper end of the mantissa. -/
theorem exists_units_of_small {n : Nat} (positive : 0 < n) (small : n < 2 ^ 53) :
    ∃ bits < infinityBits, units bits = n * unit := by
  have width : n.log2 < 53 := (Nat.log2_lt (by omega)).2 small
  obtain ⟨e, moved⟩ : ∃ e, n.log2 + e = 52 := ⟨52 - n.log2, by omega⟩
  have shift : e + (n.log2 + 1022) = 1074 := by omega
  have low : 2 ^ 52 ≤ n * 2 ^ e := by
    rw [← moved, Nat.pow_add]
    exact Nat.mul_le_mul_right _ (Nat.log2_self_le (by omega))
  have high : n * 2 ^ e < 2 ^ 53 := by
    have total : n.log2 + 1 + e = 53 := by omega
    rw [← total, Nat.pow_add]
    exact Nat.mul_lt_mul_of_pos_right Nat.lt_log2_self (Nat.two_pow_pos e)
  refine ⟨(n.log2 + 1022) * 2 ^ 52 + n * 2 ^ e, ?_, ?_⟩
  · unfold infinityBits
    omega
  · rw [units_of_normal low high, Nat.mul_assoc, ← Nat.pow_add, shift, ← unit_eq]

/-- Of a whole number the nearest magnitude is whole; so is that of infinity, read as a number. -/
theorem exists_units_nearest_one (n : Nat) : ∃ k, units (nearest n 1) = k * unit := by
  by_cases small : n < 2 ^ 53
  · by_cases zero : n = 0
    · refine ⟨0, ?_⟩
      rw [zero, nearest_of_tiny (by omega), Nat.zero_mul]
      rfl
    · obtain ⟨bits, below, same⟩ := exists_units_of_small (Nat.pos_of_ne_zero zero) small
      refine ⟨n, ?_⟩
      rw [nearest_whole below same, same]
  · apply exists_units_of_exponent
    have width := (le_log2_mul (Nat.le_of_not_lt small) unit_eq).2
    unfold nearest infinityBits
    simp only [Nat.div_one]
    omega

theorem nearest_le (n d : Nat) : nearest n d ≤ infinityBits := Nat.min_le_left _ _

theorem isWhole_ofRatio_one (n : Int) (finite : (ofRatio n 1).isFinite = true) :
    isWhole (ofRatio n 1) = true := by
  have size : magnitude (ofRatio n 1) = nearest n.natAbs 1 :=
    magnitude_ofMagnitude _ (nearest_le _ _)
  rw [isWhole_iff, size]
  rw [isFinite_iff, size] at finite
  exact ⟨by rwa [isFinite_iff, size], exists_units_nearest_one _⟩

theorem roundTo?_of_isWhole (nonnegative : 0 ≤ places) (whole : isWhole x = true) :
    roundTo? x places = some x := by
  obtain ⟨finite, k, multiple⟩ := isWhole_iff.1 whole
  rw [isFinite_iff] at finite
  obtain ⟨p, rfl⟩ := Int.eq_ofNat_of_zero_le nonnegative
  have rounded := bits_rounded_whole p finite multiple
  have none : (-p : Int).toNat = 0 := by omega
  unfold roundTo?
  split
  · rfl
  · rw [if_neg (by omega)]
    simp only [Int.toNat_natCast, none, Nat.pow_zero, Nat.mul_one, rounded]
    rw [if_neg (by omega), ofMagnitude_magnitude (Nat.le_of_lt finite)]

end Reckoner.Double
