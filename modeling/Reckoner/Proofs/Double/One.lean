import Reckoner.Proofs.Double.Order

set_option autoImplicit false

namespace Reckoner.Double

open Float.Model Float.Model.UnpackedFloat

theorem unpack_one : (1 : Float).toModel.unpack = .finite .positive (2 ^ 52) (-52) (by decide) := by
  rfl

theorem repeat_shiftRightOne (k m : Nat) :
    Nat.repeat ExtendedMantissa.shiftRightOne k ⟨2 ^ k * m, false, false⟩ = ⟨m, false, false⟩ := by
  induction k generalizing m with
  | zero => simp [Nat.repeat]
  | succ k ih =>
    have double : 2 ^ (k + 1) * m = 2 ^ k * (2 * m) := by rw [Nat.pow_succ, Nat.mul_assoc]
    rw [Nat.repeat, double, ih]
    simp [ExtendedMantissa.shiftRightOne]

theorem targetExponent_eq (t : Int) : Format.binary64.targetExponent t = max (t - 53) (-1074) := by
  unfold Format.targetExponent
  rfl

/-- A shift that drops zeros only. -/
theorem shiftToTargetExponent_exact {m : Nat} {e : Int} (k : Nat)
    (target : Format.binary64.targetExponent (totalExponent (2 ^ k * m) (e - k)) = e) :
    shiftToTargetExponent Format.binary64 (2 ^ k * m) (e - k) .exact = (⟨m, false, false⟩, e) := by
  have amount : (e - (e - (k : Int))).toNat = k := by omega
  have back : e - (k : Int) + k = e := by omega
  unfold shiftToTargetExponent shiftToExponent
  simp only [target, amount, back]
  change (Nat.repeat ExtendedMantissa.shiftRightOne k ⟨2 ^ k * m, false, false⟩, e) = _
  rw [repeat_shiftRightOne]

theorem log2_scaled {m : Nat} (positive : 0 < m) (k : Nat) :
    (2 ^ k * m).log2 = k + m.log2 := by
  have low := Nat.log2_self_le (n := m) (by omega)
  have high := Nat.lt_log2_self (n := m)
  have nonzero : 2 ^ k * m ≠ 0 := Nat.mul_ne_zero (Nat.ne_of_gt (Nat.two_pow_pos k)) (by omega)
  rw [Nat.log2_eq_iff nonzero, Nat.add_assoc, Nat.pow_add, Nat.pow_add]
  exact ⟨Nat.mul_le_mul_left _ low, Nat.mul_lt_mul_of_pos_left high (Nat.two_pow_pos k)⟩

theorem totalExponent_scaled {m : Nat} (positive : 0 < m) (k : Nat) (e : Int) :
    totalExponent (2 ^ k * m) (e - k) = totalExponent m e := by
  unfold totalExponent
  rw [log2_scaled positive]
  omega

/-- A mantissa with enough zeros at its end is rounded to itself. -/
theorem roundWithAccuracy_exact {m : Nat} {e : Int} (positive : 0 < m) (k : Nat) (s : Sign)
    (target : Format.binary64.targetExponent (totalExponent m e) = e) :
    roundWithAccuracy Format.binary64 s (2 ^ k * m) (e - k) .exact = .finite s m e positive := by
  have first := shiftToTargetExponent_exact k (by rwa [totalExponent_scaled positive])
  have second := shiftToTargetExponent_exact (m := m) (e := e) 0
    (by rwa [totalExponent_scaled positive])
  simp only [Nat.pow_zero, Nat.one_mul, Int.natCast_zero, Int.sub_zero] at second
  have rounded : (ExtendedMantissa.mk m false false).roundedMantissa = m := rfl
  unfold roundWithAccuracy
  simp only [first, rounded, second]
  exact dif_neg (by omega)

/-- The exponent that unpacking gives is the one that rounding aims at. -/
theorem targetExponent_decoded {negative : Bool} {bits : Nat} {s : Sign} {m : Nat} {e : Int}
    {positive : 0 < m} (shape : decoded negative bits = .finite s m e positive) :
    Format.binary64.targetExponent (totalExponent m e) = e := by
  rw [targetExponent_eq]
  unfold totalExponent
  rcases magnitude_cases bits with
    above | rfl | rfl | ⟨nonzero, small⟩ | ⟨large, below⟩
  · rw [decoded_nan _ above] at shape
    contradiction
  · rw [decoded_infinity] at shape
    contradiction
  · rw [decoded_zero] at shape
    contradiction
  · rw [decoded_subnormal _ nonzero small] at shape
    cases shape
    have width := (Nat.log2_lt (n := bits) (by omega)).2 small
    omega
  · rw [decoded_normal _ large below] at shape
    cases shape
    have width : (2 ^ 52 + bits % 2 ^ 52).log2 = 52 := (Nat.log2_eq_iff (by omega)).2 (by omega)
    rw [width]
    omega

theorem positive_mul (s : Sign) : Sign.positive * s = s := by
  cases s <;> rfl

theorem unpacked_one_mul (x : Float) :
    UnpackedFloat.mul Format.binary64 (1 : Float).toModel.unpack x.toModel.unpack =
      x.toModel.unpack := by
  rw [unpack_one]
  rcases class_cases x with above | infinite | zero | ⟨nonzero, finite⟩
  · rw [unpack_of_nan above]
    rfl
  · rw [unpack_of_infinite infinite]
    simp only [UnpackedFloat.mul, positive_mul]
  · rw [unpack_of_zero zero]
    simp only [UnpackedFloat.mul, positive_mul]
  · obtain ⟨m, e, positive, shape⟩ := unpack_of_finite nonzero finite
    have target := targetExponent_decoded (unpack_toModel x ▸ shape)
    have exponent : (-52 : Int) + e = e - (52 : Nat) := by omega
    rw [shape]
    simp only [UnpackedFloat.mul, positive_mul, exponent]
    exact roundWithAccuracy_exact positive 52 _ target

theorem one_mul (x : Float) : 1 * x = x := by
  change packed (UnpackedFloat.mul _ (1 : Float).toModel.unpack x.toModel.unpack) = _
  rw [unpacked_one_mul, packed_unpack]

theorem neg_one_mul (x : Float) : -1 * x = -x := by
  rw [neg_mul, one_mul]

end Reckoner.Double
