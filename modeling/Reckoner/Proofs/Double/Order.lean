import Reckoner.Proofs.Double.Sign

set_option autoImplicit false

namespace Reckoner.Double

open Float.Model Float.Model.UnpackedFloat

variable {x y : Float}

theorem unpack_of_nan (above : infinityBits < magnitude x) : x.toModel.unpack = .notANumber := by
  rw [unpack_toModel, decoded_nan _ above]

theorem unpack_of_infinite (infinite : magnitude x = infinityBits) :
    x.toModel.unpack = .infinity (signOf (isNegative x)) := by
  rw [unpack_toModel, infinite, decoded_infinity]

theorem unpack_of_zero (zero : magnitude x = 0) :
    x.toModel.unpack = .zero (signOf (isNegative x)) := by
  rw [unpack_toModel, zero, decoded_zero]

theorem unpack_of_finite (nonzero : magnitude x ≠ 0) (finite : magnitude x < infinityBits) :
    ∃ m e positive, x.toModel.unpack = .finite (signOf (isNegative x)) m e positive := by
  rw [unpack_toModel]
  by_cases small : magnitude x < 2 ^ 52
  · exact ⟨_, _, _, decoded_subnormal _ (by omega) small⟩
  · exact ⟨_, _, _, decoded_normal _ (by omega) finite⟩

/-- The four classes of doubles. -/
theorem class_cases (x : Float) : infinityBits < magnitude x ∨ magnitude x = infinityBits ∨
    magnitude x = 0 ∨ (magnitude x ≠ 0 ∧ magnitude x < infinityBits) := by
  omega

theorem isNaN_iff : x.isNaN = true ↔ infinityBits < magnitude x := by
  change x.toModel.unpack.isNaN = true ↔ _
  rcases class_cases x with above | infinite | zero | ⟨nonzero, finite⟩
  · rw [unpack_of_nan above]
    exact iff_of_true rfl above
  · rw [unpack_of_infinite infinite]
    exact iff_of_false nofun (by omega)
  · rw [unpack_of_zero zero]
    exact iff_of_false nofun (by omega)
  · obtain ⟨m, e, positive, shape⟩ := unpack_of_finite nonzero finite
    rw [shape]
    exact iff_of_false nofun (by omega)

theorem isNaN_eq_false_iff : x.isNaN = false ↔ magnitude x ≤ infinityBits := by
  rw [← Bool.not_eq_true, isNaN_iff, Nat.not_lt]

theorem isInf_iff : x.isInf = true ↔ magnitude x = infinityBits := by
  change x.toModel.unpack.isInf = true ↔ _
  rcases class_cases x with above | infinite | zero | ⟨nonzero, finite⟩
  · simp only [unpack_of_nan above, UnpackedFloat.isInf, Bool.false_eq_true, false_iff]
    omega
  · simp only [unpack_of_infinite infinite, UnpackedFloat.isInf, infinite]
  · simp only [unpack_of_zero zero, UnpackedFloat.isInf, zero, Bool.false_eq_true, false_iff]
    decide
  · obtain ⟨m, e, positive, shape⟩ := unpack_of_finite nonzero finite
    simp only [shape, UnpackedFloat.isInf, Bool.false_eq_true, false_iff]
    omega

theorem isFinite_iff : x.isFinite = true ↔ magnitude x < infinityBits := by
  change x.toModel.unpack.isFinite = true ↔ _
  rcases class_cases x with above | infinite | zero | ⟨nonzero, finite⟩
  · simp only [unpack_of_nan above, UnpackedFloat.isFinite, Bool.false_eq_true, false_iff]
    omega
  · simp only [unpack_of_infinite infinite, UnpackedFloat.isFinite, infinite, Nat.lt_irrefl,
      Bool.false_eq_true]
  · simp only [unpack_of_zero zero, UnpackedFloat.isFinite, zero, true_iff]
    decide
  · obtain ⟨m, e, positive, shape⟩ := unpack_of_finite nonzero finite
    simp only [shape, UnpackedFloat.isFinite, finite]

theorem unpack_zero : (0 : Float).toModel.unpack = .zero .positive := rfl

@[simp] theorem magnitude_zero : magnitude 0 = 0 := by decide

theorem beq_zero_iff : (x == 0) = true ↔ magnitude x = 0 := by
  change (x.toModel.unpack.compare (0 : Float).toModel.unpack == some .eq) = true ↔ _
  rw [unpack_zero]
  rcases class_cases x with above | infinite | zero | ⟨nonzero, finite⟩
  · rw [unpack_of_nan above]
    simp only [UnpackedFloat.compare]
    exact ⟨fun h => absurd h (by decide), fun h => by omega⟩
  · rw [unpack_of_infinite infinite, infinite]
    cases isNegative x <;> exact ⟨fun h => absurd h (by decide), fun h => absurd h (by decide)⟩
  · rw [unpack_of_zero zero, zero]
    cases isNegative x <;> exact ⟨fun _ => rfl, fun _ => rfl⟩
  · obtain ⟨m, e, positive, shape⟩ := unpack_of_finite nonzero finite
    rw [shape]
    cases isNegative x <;> exact ⟨fun h => absurd h Bool.false_ne_true, fun h => absurd h nonzero⟩

theorem lt_iff_compare : x < y ↔ x.toModel.unpack.compare y.toModel.unpack = some .lt := by
  change decide (x.toModel.lt y.toModel = true) = true ↔ _
  rw [decide_eq_true_eq]
  change (x.toModel.unpack.compare y.toModel.unpack == some .lt) = true ↔ _
  rw [beq_iff_eq]

theorem isNegative_of_nan (above : infinityBits < magnitude x) : isNegative x = false := by
  rw [eq_packed_notANumber above]
  decide

theorem lt_zero_iff : x < 0 ↔ isNegative x = true ∧ magnitude x ≠ 0 := by
  rw [lt_iff_compare, unpack_zero]
  rcases class_cases x with above | infinite | zero | ⟨nonzero, finite⟩
  · rw [unpack_of_nan above, isNegative_of_nan above]
    exact ⟨fun h => absurd h (by decide), fun h => absurd h.1 (by decide)⟩
  · rw [unpack_of_infinite infinite, infinite]
    cases isNegative x <;> decide
  · rw [unpack_of_zero zero, zero]
    cases isNegative x <;> decide
  · obtain ⟨m, e, positive, shape⟩ := unpack_of_finite nonzero finite
    rw [shape]
    cases isNegative x
    · constructor
      · intro h
        cases h
      · intro h
        exact absurd h.1 (by decide)
    · exact ⟨fun _ => ⟨rfl, nonzero⟩, fun _ => rfl⟩

theorem beq_iff_compare :
    (x == y) = true ↔ x.toModel.unpack.compare y.toModel.unpack = some .eq := by
  change (x.toModel.unpack.compare y.toModel.unpack == some .eq) = true ↔ _
  rw [beq_iff_eq]

theorem beq_self (number : x.isNaN = false) : (x == x) = true := by
  rw [isNaN_eq_false_iff] at number
  rw [beq_iff_compare]
  rcases class_cases x with above | infinite | zero | ⟨nonzero, finite⟩
  · omega
  · rw [unpack_of_infinite infinite]
    cases isNegative x <;> rfl
  · rw [unpack_of_zero zero]
    cases isNegative x <;> rfl
  · obtain ⟨m, e, positive, shape⟩ := unpack_of_finite nonzero finite
    have exponent : compare e e = .eq := Std.compare_self
    have mantissa : compare m m = .eq := Std.compare_self
    rw [shape]
    cases isNegative x <;>
      simp only [signOf, UnpackedFloat.compare, exponent, mantissa, if_true, if_false,
        Bool.false_eq_true, Ordering.then, Ordering.swap]

theorem beq_of_zeros (hx : magnitude x = 0) (hy : magnitude y = 0) : (x == y) = true := by
  rw [beq_iff_compare, unpack_of_zero hx, unpack_of_zero hy]
  cases isNegative x <;> cases isNegative y <;> rfl

theorem eq_of_compare_finite {s t : Sign} {m m' : Nat} {e e' : Int} {hm : 0 < m} {hm' : 0 < m'}
    (h : (finite s m e hm).compare (finite t m' e' hm') = some .eq) :
    finite s m e hm = finite t m' e' hm' := by
  have same (h : (compare e e').then (compare m m') = .eq) : e = e' ∧ m = m' := by
    rw [Ordering.then_eq_eq] at h
    exact ⟨Std.compare_eq_iff_eq.1 h.1, Std.compare_eq_iff_eq.1 h.2⟩
  cases s <;> cases t <;> simp only [UnpackedFloat.compare, Option.some.injEq, reduceCtorEq] at h
  · have inner : (compare e e').then (compare m m') = .eq := by simpa using h
    obtain ⟨rfl, rfl⟩ := same inner
    rfl
  · obtain ⟨rfl, rfl⟩ := same h
    rfl

/-- Numbers that compare as equal are the same, unless both are zeros. -/
theorem eq_of_compare {v w : UnpackedFloat} (h : v.compare w = some .eq) :
    v = w ∨ (∃ s, v = .zero s) ∧ ∃ s, w = .zero s := by
  cases v with
  | notANumber => contradiction
  | infinity s =>
    cases w with
    | infinity t => cases s <;> cases t <;> first | exact .inl rfl | contradiction
    | _ => cases s <;> simp [UnpackedFloat.compare] at h
  | zero s =>
    cases w with
    | zero t => exact .inr ⟨⟨s, rfl⟩, t, rfl⟩
    | infinity t => cases t <;> simp [UnpackedFloat.compare] at h
    | finite t => cases t <;> simp [UnpackedFloat.compare] at h
    | notANumber => contradiction
  | finite s m e positive =>
    cases w with
    | finite t m' e' positive' => exact .inl (eq_of_compare_finite h)
    | infinity t => cases s <;> cases t <;> simp [UnpackedFloat.compare] at h
    | zero t => cases s <;> simp [UnpackedFloat.compare] at h
    | notANumber => cases s <;> contradiction

theorem magnitude_of_unpack_zero {s : Sign} (h : x.toModel.unpack = .zero s) : magnitude x = 0 := by
  rcases class_cases x with above | infinite | zero | ⟨nonzero, finite⟩
  · rw [unpack_of_nan above] at h
    contradiction
  · rw [unpack_of_infinite infinite] at h
    contradiction
  · exact zero
  · obtain ⟨m, e, positive, shape⟩ := unpack_of_finite nonzero finite
    rw [shape] at h
    contradiction

end Reckoner.Double
