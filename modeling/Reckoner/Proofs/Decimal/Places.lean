import Reckoner.Decimal.Places
import Reckoner.Proofs.Decimal.Nearest
import Reckoner.Proofs.Double.Order

set_option autoImplicit false

namespace Reckoner.Double

variable {x y : Float} {n d a bits : Nat} {places : Int}

theorem roundHalfEven_le (n d : Nat) : roundHalfEven n d ≤ n / d + 1 := by
  rcases roundHalfEven_eq_or n d with same | next <;> omega

theorem two_pow_le {u a e : Nat} (power : u = 2 ^ a) (h : e ≤ a) : 2 ^ e ≤ u := by
  rw [power]
  exact Nat.pow_le_pow_right (by decide) h

/-- A quotient that is not large is rounded to a finite magnitude. -/
theorem nearest_lt_infinity (small : n < 2 ^ a * d) (bound : a ≤ 900) :
    nearest n d < infinityBits := by
  have positive : 0 < d := by
    apply Nat.pos_of_ne_zero
    rintro rfl
    omega
  have units : n * unit / d < 2 ^ (a + 1074) := by
    rw [Nat.div_lt_iff_lt_mul positive, Nat.pow_add, ← unit_eq, Nat.mul_right_comm]
    exact Nat.mul_lt_mul_of_pos_right small unit_pos
  have width : Nat.log2 (n * unit / d) ≤ a + 1074 := by
    by_cases none : n * unit / d = 0
    · rw [none]
      exact Nat.zero_le _
    · exact Nat.le_of_lt ((Nat.log2_lt none).2 units)
  -- Of the quotient in units 53 bits are kept.
  have kept : n * unit / (d * 2 ^ (Nat.log2 (n * unit / d) - 52)) < 2 ^ 53 := by
    rw [← Nat.div_div_eq_div_mul, Nat.div_lt_iff_lt_mul (Nat.two_pow_pos _), ← Nat.pow_add]
    exact Nat.lt_of_lt_of_le Nat.lt_log2_self (Nat.pow_le_pow_right (by decide) (by omega))
  have rounded := roundHalfEven_le (n * unit) (d * 2 ^ (Nat.log2 (n * unit / d) - 52))
  unfold nearest infinityBits
  dsimp only
  omega

/-- A magnitude whose exponent field is 1075 or more is a whole number. -/
theorem exists_units_of_exponent (exponent : 1075 * 2 ^ 52 ≤ bits) : ∃ k, units bits = k * unit := by
  obtain ⟨e, shifted⟩ : ∃ e, bits / 2 ^ 52 - 1 = e + 1074 := ⟨bits / 2 ^ 52 - 1075, by omega⟩
  refine ⟨(bits % 2 ^ 52 + 2 ^ 52) * 2 ^ e, ?_⟩
  unfold units
  rw [if_neg (by omega), shifted, Nat.pow_add, ← unit_eq, Nat.mul_assoc]

/-- A magnitude from 2^53 on is a whole number. -/
theorem exists_units_of_large (large : 2 ^ 53 * unit ≤ units bits) :
    ∃ k, units bits = k * unit := by
  apply exists_units_of_exponent
  by_contra less
  have positive := unit_pos
  by_cases subnormal : bits < 2 ^ 52
  · have same : units bits = bits := if_pos subnormal
    have grows := Nat.le_mul_of_pos_right (2 ^ 53) positive
    omega
  · have shape : units bits = (bits % 2 ^ 52 + 2 ^ 52) * 2 ^ (bits / 2 ^ 52 - 1) := if_neg subnormal
    have power : 2 ^ (bits / 2 ^ 52 - 1) ≤ unit := two_pow_le unit_eq (by omega)
    have mantissa : bits % 2 ^ 52 + 2 ^ 52 < 2 ^ 53 := by omega
    have below : units bits < 2 ^ 53 * unit := by
      rw [shape]
      calc (bits % 2 ^ 52 + 2 ^ 52) * 2 ^ (bits / 2 ^ 52 - 1)
          ≤ (bits % 2 ^ 52 + 2 ^ 52) * unit := Nat.mul_le_mul_left _ power
        _ < 2 ^ 53 * unit := Nat.mul_lt_mul_of_pos_right mantissa positive
    omega

/-- A whole number is the double nearest to itself. -/
theorem nearest_whole {k : Nat} (finite : bits < infinityBits) (whole : units bits = k * unit) :
    nearest k 1 = bits := by
  have scaled := nearest_scaled unit_pos k 1
  rw [Nat.one_mul] at scaled
  rw [← scaled, ← whole, nearest_units finite]

/-- To places after the point a whole number is rounded to itself. -/
theorem bits_rounded_whole {k : Nat} (p : Nat) (finite : bits < infinityBits)
    (whole : units bits = k * unit) :
    (Decimal.mk (roundHalfEven (units bits * 10 ^ p) unit) (-p : Int)).bits = bits := by
  have power : 0 < 10 ^ p := Nat.pow_pos (by decide)
  have places : (-(-p : Int)).toNat = p := by omega
  have none : (-p : Int).toNat = 0 := by omega
  have scaled := nearest_scaled power k 1
  rw [Nat.one_mul] at scaled
  rw [Decimal.bits_eq_nearest]
  simp only [Decimal.ratio, places, none, Nat.pow_zero, Nat.mul_one]
  rw [whole, Nat.mul_right_comm, roundHalfEven_exact _ unit_pos, scaled, nearest_whole finite whole]

/-- To places after the point a finite magnitude is rounded to a finite one. -/
theorem bits_rounded_lt (p : Nat) (finite : bits < infinityBits) :
    (Decimal.mk (roundHalfEven (units bits * 10 ^ p) unit) (-p : Int)).bits < infinityBits := by
  by_cases large : 2 ^ 53 * unit ≤ units bits
  · obtain ⟨k, whole⟩ := exists_units_of_large large
    rw [bits_rounded_whole p finite whole]
    exact finite
  · have power : 0 < 10 ^ p := Nat.pow_pos (by decide)
    have places : (-(-p : Int)).toNat = p := by omega
    have none : (-p : Int).toNat = 0 := by omega
    have quotient : units bits * 10 ^ p / unit < 2 ^ 53 * 10 ^ p := by
      rw [Nat.div_lt_iff_lt_mul unit_pos, Nat.mul_right_comm]
      exact Nat.mul_lt_mul_of_pos_right (by omega) power
    have rounded := roundHalfEven_le (units bits * 10 ^ p) unit
    rw [Decimal.bits_eq_nearest]
    simp only [Decimal.ratio, places, none, Nat.pow_zero, Nat.mul_one]
    apply nearest_lt_infinity (a := 54) _ (by decide)
    omega

theorem isFinite_ofMagnitude (negative : Bool) (finite : bits < infinityBits) :
    (ofMagnitude negative bits).isFinite = true := by
  rw [isFinite_iff, magnitude_ofMagnitude _ (Nat.le_of_lt finite)]
  exact finite

theorem exists_roundTo? (nonnegative : 0 ≤ places) (finite : x.isFinite = true) :
    ∃ y, roundTo? x places = some y ∧ y.isFinite = true := by
  obtain ⟨p, rfl⟩ := Int.eq_ofNat_of_zero_le nonnegative
  unfold roundTo?
  split
  · exact ⟨x, rfl, finite⟩
  · rw [if_neg (by omega)]
    have bound := bits_rounded_lt p (isFinite_iff.1 finite)
    have none : (-p : Int).toNat = 0 := by omega
    simp only [Int.toNat_natCast, none, Nat.pow_zero, Nat.mul_one]
    rw [if_neg (by omega)]
    exact ⟨_, rfl, isFinite_ofMagnitude _ bound⟩

end Reckoner.Double
