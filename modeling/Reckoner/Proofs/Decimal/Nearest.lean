import Reckoner.Decimal.Basic
import Mathlib.Tactic.Common

set_option autoImplicit false

namespace Reckoner

namespace Double

theorem unit_eq : unit = 2 ^ 1074 := by
  rw [unit]

theorem unit_pos : 0 < unit := by
  unfold unit
  apply Nat.two_pow_pos

theorem roundHalfEven_scaled {k : Nat} (positive : 0 < k) (n d : Nat) :
    roundHalfEven (n * k) (d * k) = roundHalfEven n d := by
  unfold roundHalfEven
  have half : 2 * (n % d * k) = 2 * (n % d) * k := by rw [Nat.mul_assoc]
  simp only [Nat.mul_div_mul_right _ _ positive, Nat.mul_mod_mul_right, half,
    Nat.mul_lt_mul_right positive, Nat.mul_left_inj (Nat.ne_of_gt positive)]

/-- The same quotient, with both parts scaled, is rounded to the same bits. -/
theorem nearest_scaled {k : Nat} (positive : 0 < k) (n d : Nat) :
    nearest (n * k) (d * k) = nearest n d := by
  have dividend : n * k * unit = n * unit * k := Nat.mul_right_comm _ _ _
  have divisor (s : Nat) : d * k * s = d * s * k := Nat.mul_right_comm _ _ _
  unfold nearest
  simp only [dividend, divisor, Nat.mul_div_mul_right _ _ positive, roundHalfEven_scaled positive]

theorem roundHalfEven_exact (n : Nat) {d : Nat} (positive : 0 < d) :
    roundHalfEven (n * d) d = n := by
  unfold roundHalfEven
  simp only [Nat.mul_div_cancel _ positive, Nat.mul_mod_left]
  rw [if_neg (by omega)]

theorem roundHalfEven_eq_or (n d : Nat) :
    roundHalfEven n d = n / d ∨ roundHalfEven n d = n / d + 1 := by
  unfold roundHalfEven
  dsimp only
  split
  · exact .inr rfl
  · exact .inl rfl

theorem div_le_roundHalfEven (n d : Nat) : n / d ≤ roundHalfEven n d := by
  rcases roundHalfEven_eq_or n d with same | next <;> omega

theorem log2_units_normal {bits : Nat} (large : 2 ^ 52 ≤ bits) :
    Nat.log2 (units bits) = 52 + (bits / 2 ^ 52 - 1) := by
  have above : 2 ^ 52 ≤ bits % 2 ^ 52 + 2 ^ 52 := by omega
  have below : bits % 2 ^ 52 + 2 ^ 52 < 2 ^ 53 := by omega
  have positive := Nat.two_pow_pos (bits / 2 ^ 52 - 1)
  unfold units
  rw [if_neg (by omega), Nat.log2_eq_iff (Nat.ne_of_gt (Nat.mul_pos (by omega) positive)),
    Nat.add_right_comm, Nat.pow_add, Nat.pow_add 2 (52 + 1)]
  exact ⟨Nat.mul_le_mul_right _ above, Nat.mul_lt_mul_of_pos_right below positive⟩

/-- The units of a finite magnitude are rounded to its bits. -/
theorem nearest_units {bits : Nat} (finite : bits < infinityBits) :
    nearest (units bits) unit = bits := by
  unfold infinityBits at finite
  unfold nearest
  simp only [Nat.mul_div_cancel _ unit_pos]
  by_cases small : bits < 2 ^ 52
  · have same : units bits = bits := if_pos small
    have shift : Nat.log2 bits - 52 = 0 := by
      by_cases zero : bits = 0
      · rw [zero]
        decide
      · have bound := (Nat.log2_lt zero).2 small
        omega
    rw [same, shift, Nat.pow_zero, Nat.mul_one, roundHalfEven_exact _ unit_pos]
    unfold infinityBits
    omega
  · have shift : Nat.log2 (units bits) - 52 = bits / 2 ^ 52 - 1 := by
      rw [log2_units_normal (by omega), Nat.add_sub_cancel_left]
    have regroup : units bits * unit =
        (bits % 2 ^ 52 + 2 ^ 52) * (unit * 2 ^ (bits / 2 ^ 52 - 1)) := by
      unfold units
      rw [if_neg small, Nat.mul_assoc, Nat.mul_comm unit]
    rw [shift, regroup, roundHalfEven_exact _ (Nat.mul_pos unit_pos (Nat.two_pow_pos _))]
    unfold infinityBits
    omega

/-- What is less than half a unit is rounded to zero. -/
theorem nearest_of_tiny {n d : Nat} (tiny : 2 * (n * unit) < d) : nearest n d = 0 := by
  have none : n * unit / d = 0 := Nat.div_eq_of_lt (by omega)
  have all : n * unit % d = n * unit := Nat.mod_eq_of_lt (by omega)
  unfold nearest
  have shift : Nat.log2 0 - 52 = 0 := by decide
  simp only [none, shift, Nat.pow_zero, Nat.mul_one, roundHalfEven, all]
  rw [if_neg (by omega)]
  decide

theorem le_log2_mul {n u a b : Nat} (number : 2 ^ a ≤ n) (factor : u = 2 ^ b) :
    n * u ≠ 0 ∧ a + b ≤ Nat.log2 (n * u) := by
  have size : 2 ^ (a + b) ≤ n * u := by
    rw [factor, Nat.pow_add]
    exact Nat.mul_le_mul_right _ number
  have nonzero : n * u ≠ 0 := Nat.ne_of_gt (Nat.lt_of_lt_of_le (Nat.two_pow_pos _) size)
  exact ⟨nonzero, (Nat.le_log2 nonzero).2 size⟩

/-- A whole number from 2^1024 on is rounded to infinity. -/
theorem nearest_of_huge {n : Nat} (huge : 2 ^ 1024 ≤ n) : nearest n 1 = infinityBits := by
  obtain ⟨nonzero, width⟩ := le_log2_mul huge unit_eq
  have mantissa : 2 ^ 52 ≤ n * unit / 2 ^ (Nat.log2 (n * unit) - 52) := by
    rw [Nat.le_div_iff_mul_le (Nat.two_pow_pos _), ← Nat.pow_add, Nat.add_sub_cancel' (by omega)]
    exact Nat.log2_self_le nonzero
  have rounded := div_le_roundHalfEven (n * unit) (1 * 2 ^ (Nat.log2 (n * unit) - 52))
  unfold nearest
  simp only [Nat.div_one]
  rw [Nat.one_mul] at rounded ⊢
  unfold infinityBits
  apply Nat.min_eq_left
  omega

theorem two_pow_le_ten_pow {a k : Nat} (h : a ≤ 3 * k) : 2 ^ a ≤ 10 ^ k := by
  calc 2 ^ a ≤ 2 ^ (3 * k) := Nat.pow_le_pow_right (by decide) h
    _ = 8 ^ k := Nat.pow_mul 2 3 k
    _ ≤ 10 ^ k := Nat.pow_le_pow_left (by decide) k

theorem two_mul_le_ten_pow {u a k : Nat} (power : u = 2 ^ a) (h : a < 3 * k) : 2 * u ≤ 10 ^ k := by
  rw [power, Nat.mul_comm, ← Nat.pow_succ]
  exact two_pow_le_ten_pow h

end Double

namespace Decimal

open Double

theorem bits_of_zero {d : Decimal} (zero : d.coefficient = 0) : nearest d.ratio.1 d.ratio.2 = 0 := by
  apply nearest_of_tiny
  simp only [ratio, zero, Nat.zero_mul, Nat.mul_zero]
  exact Nat.pow_pos (by decide)

theorem bits_of_huge {d : Decimal} (positive : d.coefficient ≠ 0) (huge : 400 < d.exponent) :
    nearest d.ratio.1 d.ratio.2 = infinityBits := by
  have whole : (-d.exponent).toNat = 0 := by omega
  have power : 2 ^ 1024 ≤ 10 ^ d.exponent.toNat := two_pow_le_ten_pow (a := 1024) (by omega)
  have bound : 2 ^ 1024 ≤ d.coefficient * 10 ^ d.exponent.toNat :=
    Nat.le_trans power (Nat.le_mul_of_pos_left _ (by omega))
  simp only [ratio, whole, Nat.pow_zero]
  exact nearest_of_huge bound

theorem bits_of_tiny {d : Decimal}
    (tiny : d.exponent + Nat.log2 d.coefficient + 1 < -400) :
    nearest d.ratio.1 d.ratio.2 = 0 := by
  have fraction : d.exponent.toNat = 0 := by omega
  have size : d.coefficient < 10 ^ (Nat.log2 d.coefficient + 1) :=
    Nat.lt_of_lt_of_le Nat.lt_log2_self (Nat.pow_le_pow_left (by decide) _)
  obtain ⟨k, more⟩ : ∃ k, (-d.exponent).toNat = k + (Nat.log2 d.coefficient + 1) :=
    ⟨(-d.exponent).toNat - (Nat.log2 d.coefficient + 1), by omega⟩
  have units : 2 * unit ≤ 10 ^ k := two_mul_le_ten_pow unit_eq (by omega)
  apply nearest_of_tiny
  simp only [ratio, fraction, Nat.pow_zero, Nat.mul_one, more]
  rw [Nat.pow_add]
  calc 2 * (d.coefficient * unit) = 2 * unit * d.coefficient := by
        rw [Nat.mul_comm d.coefficient, Nat.mul_assoc]
    _ ≤ 10 ^ k * d.coefficient := Nat.mul_le_mul_right _ units
    _ < 10 ^ k * 10 ^ (Nat.log2 d.coefficient + 1) :=
        Nat.mul_lt_mul_of_pos_left size (Nat.pow_pos (by decide))

/-- A decimal reads as the double nearest to its value. -/
theorem bits_eq_nearest (d : Decimal) : d.bits = nearest d.ratio.1 d.ratio.2 := by
  unfold bits
  split
  next zero => exact (bits_of_zero zero).symm
  next positive =>
    split
    next huge => exact (bits_of_huge positive huge).symm
    next =>
      split
      next tiny => exact (bits_of_tiny tiny).symm
      next => rfl

theorem bits_shifted (c : Nat) (e : Int) : bits ⟨10 * c, e⟩ = bits ⟨c, e + 1⟩ := by
  rw [bits_eq_nearest, bits_eq_nearest]
  simp only [ratio]
  by_cases negative : e < 0
  · have left : e.toNat = 0 := by omega
    have right : (e + 1).toNat = 0 := by omega
    have power : 10 ^ (-e).toNat = 10 ^ (-(e + 1)).toNat * 10 := by
      rw [← Nat.pow_succ]
      congr 1
      omega
    rw [left, right, Nat.pow_zero, Nat.mul_one, Nat.mul_one, power, Nat.mul_comm 10]
    exact nearest_scaled (by decide) _ _
  · have left : (-e).toNat = 0 := by omega
    have right : (-(e + 1)).toNat = 0 := by omega
    have power : 10 ^ (e + 1).toNat = 10 * 10 ^ e.toNat := by
      rw [Nat.mul_comm, ← Nat.pow_succ]
      congr 1
      omega
    rw [left, right, power, Nat.mul_comm 10 c, Nat.mul_assoc]

/-- Zeros at the end of the coefficient do not change what a decimal reads as. -/
theorem bits_strip (d : Decimal) : d.strip.bits = d.bits := by
  fun_induction strip d with
  | case1 d trailing ih =>
    have tens : 10 * (d.coefficient / 10) = d.coefficient := by omega
    rw [ih, ← bits_shifted, tens]
  | case2 => rfl

end Decimal

end Reckoner
