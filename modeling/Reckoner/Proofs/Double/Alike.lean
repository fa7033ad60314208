import Reckoner.Proofs.Double.Order

set_option autoImplicit false

namespace Reckoner.Double

open Float.Model Float.Model.UnpackedFloat

/-- The same number, or both of them zero. -/
def Alike (x y : Float) : Prop := x = y ∨ (magnitude x = 0 ∧ magnitude y = 0)

variable {x x' y y' z : Float}

theorem Alike.refl (x : Float) : Alike x x := .inl rfl

theorem Alike.symm (h : Alike x y) : Alike y x :=
  h.elim (fun same => .inl same.symm) fun zeros => .inr ⟨zeros.2, zeros.1⟩

theorem Alike.trans (first : Alike x y) (second : Alike y z) : Alike x z := by
  rcases first with rfl | ⟨hx, hy⟩
  · exact second
  · rcases second with rfl | ⟨_, hz⟩
    · exact .inr ⟨hx, hy⟩
    · exact .inr ⟨hx, hz⟩

theorem Alike.magnitude_eq (h : Alike x y) : magnitude x = magnitude y := by
  rcases h with rfl | ⟨hx, hy⟩
  · rfl
  · rw [hx, hy]

theorem Alike.isNaN_eq (h : Alike x y) : x.isNaN = y.isNaN := by
  rw [Bool.eq_iff_iff, isNaN_iff, isNaN_iff, h.magnitude_eq]

theorem Alike.isInf_eq (h : Alike x y) : x.isInf = y.isInf := by
  rw [Bool.eq_iff_iff, isInf_iff, isInf_iff, h.magnitude_eq]

theorem Alike.beq_zero (h : Alike x y) : (x == 0) = (y == 0) := by
  rw [Bool.eq_iff_iff, beq_zero_iff, beq_zero_iff, h.magnitude_eq]

theorem Alike.lt_zero_iff (h : Alike x y) : x < 0 ↔ y < 0 := by
  rcases h with rfl | ⟨hx, hy⟩
  · exact Iff.rfl
  · exact ⟨fun less => absurd hx (Double.lt_zero_iff.1 less).2,
      fun less => absurd hy (Double.lt_zero_iff.1 less).2⟩

theorem Alike.neg (h : Alike x y) : Alike (-x) (-y) := by
  rcases h with rfl | ⟨hx, hy⟩
  · exact .refl _
  · exact .inr ⟨by rw [magnitude_neg, hx], by rw [magnitude_neg, hy]⟩

/-- Numbers that are alike compare as equal. -/
theorem Alike.beq (h : Alike x y) (number : x.isNaN = false) : (x == y) = true := by
  rcases h with rfl | ⟨hx, hy⟩
  · exact beq_self number
  · exact beq_of_zeros hx hy

/-- Numbers that compare as equal are alike. -/
theorem alike_of_beq (h : (x == y) = true) : Alike x y := by
  rcases eq_of_compare (beq_iff_compare.1 h) with same | ⟨⟨s, left⟩, t, right⟩
  · refine .inl ?_
    rw [← packed_unpack x, same, packed_unpack]
  · exact .inr ⟨magnitude_of_unpack_zero left, magnitude_of_unpack_zero right⟩

theorem magnitude_packed_zero (s : Sign) : magnitude (packed (.zero s)) = 0 := by
  cases s <;> decide

theorem mul_eq_packed (x y : Float) :
    x * y = packed (UnpackedFloat.mul Format.binary64 x.toModel.unpack y.toModel.unpack) := rfl

theorem div_eq_packed (x y : Float) :
    x / y = packed (UnpackedFloat.div Format.binary64 x.toModel.unpack y.toModel.unpack) := rfl

theorem add_eq_packed (x y : Float) :
    x + y = packed (UnpackedFloat.add Format.binary64 x.toModel.unpack y.toModel.unpack) := rfl

/-- Zero times a number is zero, or NaN whatever the sign of the zero. -/
theorem Alike.mul_right (h : Alike x x') (y : Float) : Alike (x * y) (x' * y) := by
  rcases h with rfl | ⟨hx, hx'⟩
  · exact .refl _
  · rw [mul_eq_packed, mul_eq_packed, unpack_of_zero hx, unpack_of_zero hx']
    cases y.toModel.unpack with
    | notANumber => exact .inl rfl
    | infinity s => exact .inl rfl
    | zero s => exact .inr ⟨magnitude_packed_zero _, magnitude_packed_zero _⟩
    | finite s m e positive => exact .inr ⟨magnitude_packed_zero _, magnitude_packed_zero _⟩

theorem Alike.mul (hx : Alike x x') (hy : Alike y y') : Alike (x * y) (x' * y') := by
  refine (hx.mul_right y).trans ?_
  rw [mul_comm x' y, mul_comm x' y']
  exact hy.mul_right x'

/-- Zero over a number other than zero is zero, or NaN whatever the sign of the zero. -/
theorem Alike.div_right (h : Alike x x') (nonzero : magnitude y ≠ 0) :
    Alike (x / y) (x' / y) := by
  rcases h with rfl | ⟨hx, hx'⟩
  · exact .refl _
  · rw [div_eq_packed, div_eq_packed, unpack_of_zero hx, unpack_of_zero hx']
    rcases class_cases y with above | infinite | zero | ⟨_, finite⟩
    · rw [unpack_of_nan above]
      exact .inl rfl
    · rw [unpack_of_infinite infinite]
      exact .inr ⟨magnitude_packed_zero _, magnitude_packed_zero _⟩
    · contradiction
    · obtain ⟨m, e, positive, shape⟩ := unpack_of_finite nonzero finite
      rw [shape]
      exact .inr ⟨magnitude_packed_zero _, magnitude_packed_zero _⟩

theorem unpacked_add_comm (v w : UnpackedFloat) :
    UnpackedFloat.add Format.binary64 v w = UnpackedFloat.add Format.binary64 w v := by
  cases v with
  | notANumber => cases w <;> rfl
  | infinity s =>
    cases w with
    | infinity t => cases s <;> cases t <;> rfl
    | _ => rfl
  | zero s =>
    cases w with
    | zero t => cases s <;> cases t <;> rfl
    | _ => rfl
  | finite s m e positive =>
    cases w with
    | finite t n f positive' =>
      simp only [UnpackedFloat.add, decreaseExponent, Int.min_comm f e, Int.add_comm (t.apply _)]
    | _ => rfl

theorem add_comm (x y : Float) : x + y = y + x := by
  rw [add_eq_packed, add_eq_packed, unpacked_add_comm]

/-- A zero adds nothing to another number. -/
theorem zero_add (zero : magnitude x = 0) (nonzero : magnitude y ≠ 0) : x + y = y := by
  have sum : UnpackedFloat.add Format.binary64 (.zero (signOf (isNegative x))) y.toModel.unpack =
      y.toModel.unpack := by
    rcases class_cases y with above | infinite | none | ⟨_, finite⟩
    · rw [unpack_of_nan above]
      rfl
    · rw [unpack_of_infinite infinite]
      rfl
    · contradiction
    · obtain ⟨m, e, positive, shape⟩ := unpack_of_finite nonzero finite
      rw [shape]
      rfl
  rw [add_eq_packed, unpack_of_zero zero, sum, packed_unpack]

theorem magnitude_add_of_zeros (hx : magnitude x = 0) (hy : magnitude y = 0) :
    magnitude (x + y) = 0 := by
  rw [add_eq_packed, unpack_of_zero hx, unpack_of_zero hy]
  cases isNegative x <;> cases isNegative y <;> decide

theorem Alike.add_right (h : Alike x x') (y : Float) : Alike (x + y) (x' + y) := by
  rcases h with rfl | ⟨hx, hx'⟩
  · exact .refl _
  · by_cases zero : magnitude y = 0
    · exact .inr ⟨magnitude_add_of_zeros hx zero, magnitude_add_of_zeros hx' zero⟩
    · rw [zero_add hx zero, zero_add hx' zero]
      exact .refl _

theorem Alike.add (hx : Alike x x') (hy : Alike y y') : Alike (x + y) (x' + y') := by
  refine (hx.add_right y).trans ?_
  rw [add_comm x' y, add_comm x' y']
  exact hy.add_right x'

theorem Alike.sub (hx : Alike x x') (hy : Alike y y') : Alike (x - y) (x' - y') := by
  rw [sub_eq_add_neg, sub_eq_add_neg]
  exact hx.add hy.neg

end Reckoner.Double
