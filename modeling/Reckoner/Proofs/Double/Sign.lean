import Reckoner.Proofs.Double.Bits

set_option autoImplicit false

namespace Reckoner.Double

open Float.Model Float.Model.UnpackedFloat

theorem neg_signOf (negative : Bool) : -signOf negative = signOf (!negative) := by
  cases negative <;> rfl

theorem neg_decoded (negative : Bool) (bits : Nat) :
    (decoded negative bits).neg = decoded (!negative) bits := by
  rcases magnitude_cases bits with
    above | rfl | rfl | ⟨positive, small⟩ | ⟨large, below⟩
  · rw [decoded_nan _ above, decoded_nan _ above]
    rfl
  · rw [decoded_infinity, decoded_infinity, ← neg_signOf]
    rfl
  · rw [decoded_zero, decoded_zero, ← neg_signOf]
    rfl
  · rw [decoded_subnormal _ positive small, decoded_subnormal _ positive small, ← neg_signOf]
    rfl
  · rw [decoded_normal _ large below, decoded_normal _ large below, ← neg_signOf]
    rfl

/-- Negation before packing changes the sign component only. -/
theorem pack_neg {w : UnpackedFloat} (number : w ≠ .notANumber) :
    ∃ (s : Sign) (e : BitVec 11) (m : BitVec 52),
      UnpackedFloat.pack Format.binary64 w = packComponents Format.binary64 s e m ∧
      UnpackedFloat.pack Format.binary64 w.neg = packComponents Format.binary64 (-s) e m := by
  cases w with
  | notANumber => contradiction
  | infinity s => exact ⟨s, _, _, rfl, rfl⟩
  | zero s => exact ⟨s, _, _, rfl, rfl⟩
  | finite s m e positive =>
    have flipped : (UnpackedFloat.finite s m e positive).neg = .finite (-s) m e positive := rfl
    rw [flipped, pack_finite, pack_finite]
    split
    · exact ⟨s, _, _, rfl, rfl⟩
    · split
      · exact ⟨s, _, _, rfl, rfl⟩
      · exact ⟨s, _, _, rfl, rfl⟩

theorem toNat_packComponents_signOf (negative : Bool) (e : BitVec 11) (m : BitVec 52) :
    (packComponents Format.binary64 (signOf negative) e m).toNat =
      joined negative (2 ^ 52 * e.toNat + m.toNat) := by
  rw [toNat_packComponents, toNat_signOf, joined_eq_add negative (_ + _), Nat.add_assoc]

theorem exists_signOf (s : Sign) : ∃ negative, s = signOf negative := by
  cases s
  · exact ⟨true, rfl⟩
  · exact ⟨false, rfl⟩

theorem packed_neg_bits {w : UnpackedFloat} (number : w ≠ .notANumber) :
    isNegative (packed w.neg) = !isNegative (packed w) ∧
      magnitude (packed w.neg) = magnitude (packed w) := by
  obtain ⟨s, e, m, plain, negated⟩ := pack_neg number
  obtain ⟨negative, rfl⟩ := exists_signOf s
  have small : 2 ^ 52 * e.toNat + m.toNat < 2 ^ 63 := by
    have he := e.isLt
    have hm := m.isLt
    omega
  have first : (packed w).toBits.toNat = joined negative (2 ^ 52 * e.toNat + m.toNat) := by
    rw [toNat_toBits_packed, plain, toNat_packComponents_signOf]
  have second :
      (packed w.neg).toBits.toNat = joined (!negative) (2 ^ 52 * e.toNat + m.toNat) := by
    rw [toNat_toBits_packed, negated, neg_signOf, toNat_packComponents_signOf]
  rw [isNegative_of_toNat first small, isNegative_of_toNat second small,
    magnitude_of_toNat first small, magnitude_of_toNat second small]
  exact ⟨rfl, rfl⟩

theorem neg_eq_packed (x : Float) : -x = packed x.toModel.unpack.neg := rfl

theorem unpack_ne_notANumber {x : Float} (notNan : magnitude x ≤ infinityBits) :
    x.toModel.unpack ≠ .notANumber := by
  rw [unpack_toModel]
  intro same
  have bits := congrArg magnitude (congrArg packed same)
  rw [magnitude_packed_decoded _ notNan] at bits
  rw [bits] at notNan
  exact absurd notNan (by decide)

theorem isNegative_neg {x : Float} (notNan : magnitude x ≤ infinityBits) :
    isNegative (-x) = !isNegative x := by
  have flipped := (packed_neg_bits (unpack_ne_notANumber notNan)).1
  rwa [packed_unpack] at flipped

@[simp] theorem magnitude_neg (x : Float) : magnitude (-x) = magnitude x := by
  by_cases notNan : magnitude x ≤ infinityBits
  · have kept := (packed_neg_bits (unpack_ne_notANumber notNan)).2
    rwa [packed_unpack] at kept
  · rw [eq_packed_notANumber (x := x) (by omega)]
    rfl

theorem unpack_neg (x : Float) : (-x).toModel.unpack = x.toModel.unpack.neg := by
  rw [unpack_toModel (-x), unpack_toModel x, magnitude_neg, neg_decoded]
  by_cases notNan : magnitude x ≤ infinityBits
  · rw [isNegative_neg notNan]
  · rw [decoded_nan _ (by omega), decoded_nan _ (by omega)]

/-- Packing commutes with negation. -/
theorem packed_neg (w : UnpackedFloat) : packed w.neg = -packed w := by
  by_cases number : w = .notANumber
  · subst number
    rfl
  · obtain ⟨sign, size⟩ := packed_neg_bits number
    obtain ⟨s, e, m, plain, negated⟩ := pack_neg number
    by_cases notNan : magnitude (packed w) ≤ infinityBits
    · apply ext_bits
      · rw [sign, isNegative_neg notNan]
      · rw [size, magnitude_neg]
    · have first := eq_packed_notANumber (x := packed w) (by omega)
      have second := eq_packed_notANumber (x := packed w.neg) (by omega)
      rw [first, second]
      rfl

theorem unpacked_neg_neg (w : UnpackedFloat) : w.neg.neg = w := by
  cases w with
  | notANumber => rfl
  | infinity s => cases s <;> rfl
  | zero s => cases s <;> rfl
  | finite s m e positive => cases s <;> rfl

theorem neg_neg (x : Float) : - -x = x := by
  rw [neg_eq_packed, unpack_neg, unpacked_neg_neg, packed_unpack]

theorem neg_sign_mul (s t : Sign) : -s * t = -(s * t) := by
  cases s <;> cases t <;> rfl

theorem sign_mul_comm (s t : Sign) : s * t = t * s := by
  cases s <;> cases t <;> rfl

theorem neg_sign_div (s t : Sign) : -s / t = -(s / t) := by
  cases s <;> cases t <;> rfl

/-- Rounding treats both signs alike. -/
theorem roundWithAccuracy_neg (s : Sign) (m : Nat) (e : Int) (accuracy : Accuracy) :
    roundWithAccuracy Format.binary64 (-s) m e accuracy =
      (roundWithAccuracy Format.binary64 s m e accuracy).neg := by
  unfold roundWithAccuracy
  dsimp only
  split <;> rfl

theorem unpacked_neg_mul (v w : UnpackedFloat) :
    UnpackedFloat.mul Format.binary64 v.neg w = (UnpackedFloat.mul Format.binary64 v w).neg := by
  cases v <;> cases w <;>
    simp only [UnpackedFloat.neg, UnpackedFloat.mul, neg_sign_mul, roundWithAccuracy_neg]

theorem unpacked_mul_comm (v w : UnpackedFloat) :
    UnpackedFloat.mul Format.binary64 v w = UnpackedFloat.mul Format.binary64 w v := by
  cases v <;> cases w <;>
    simp only [UnpackedFloat.mul, sign_mul_comm, Nat.mul_comm, Int.add_comm]

theorem unpacked_neg_div (v w : UnpackedFloat) :
    UnpackedFloat.div Format.binary64 v.neg w = (UnpackedFloat.div Format.binary64 v w).neg := by
  cases v <;> cases w <;>
    simp only [UnpackedFloat.neg, UnpackedFloat.div, neg_sign_div, roundWithAccuracy_neg]

theorem sign_apply_neg (s : Sign) (n : Int) : (-s).apply n = -s.apply n := by
  cases s
  · exact (Int.neg_neg n).symm
  · rfl

/-- Subtraction is addition of the negated number. -/
theorem unpacked_sub_eq (v w : UnpackedFloat) :
    UnpackedFloat.sub Format.binary64 v w = UnpackedFloat.add Format.binary64 v w.neg := by
  cases v <;> cases w <;>
    grind [UnpackedFloat.neg, UnpackedFloat.sub, UnpackedFloat.add, sign_apply_neg]

theorem neg_mul (x y : Float) : -x * y = -(x * y) := by
  change packed (UnpackedFloat.mul _ (-x).toModel.unpack y.toModel.unpack) = _
  rw [unpack_neg, unpacked_neg_mul, packed_neg]
  rfl

theorem mul_comm (x y : Float) : x * y = y * x := by
  change packed (UnpackedFloat.mul _ x.toModel.unpack y.toModel.unpack) = _
  rw [unpacked_mul_comm]
  rfl

theorem neg_div (x y : Float) : -x / y = -(x / y) := by
  change packed (UnpackedFloat.div _ (-x).toModel.unpack y.toModel.unpack) = _
  rw [unpack_neg, unpacked_neg_div, packed_neg]
  rfl

theorem sub_eq_add_neg (x y : Float) : x - y = x + -y := by
  change packed (UnpackedFloat.sub _ x.toModel.unpack y.toModel.unpack) = _
  rw [unpacked_sub_eq, ← unpack_neg]
  rfl

theorem sub_neg (x y : Float) : x - -y = x + y := by
  rw [sub_eq_add_neg, neg_neg]

theorem ofMagnitude_eq_packed (negative : Bool) {bits : Nat} (notNan : bits ≤ infinityBits) :
    ofMagnitude negative bits = packed (decoded negative bits) := by
  have bound := infinityBits_lt
  have sum : joined negative bits < 2 ^ 64 := by
    unfold joined
    split <;> omega
  have bits_eq : (UInt64.ofNat (joined negative bits)).toBitVec.toNat = joined negative bits := by
    change joined negative bits % 2 ^ 64 = _
    omega
  have same : ofMagnitude negative bits = Float.ofBits (.ofNat (joined negative bits)) := by
    cases negative
    · simp only [ofMagnitude, joined, Bool.false_eq_true, if_false, Nat.zero_add]
    · simp only [ofMagnitude, joined, if_true]
  rw [same]
  change packed (UnpackedFloat.unpack Format.binary64
    (UInt64.ofNat (joined negative bits)).toBitVec) = _
  rw [unpack_eq_decoded, bits_eq]
  unfold joined
  cases negative
  · simp only [Bool.false_eq_true, if_false, Nat.zero_add, Nat.mod_eq_of_lt
      (Nat.lt_of_le_of_lt notNan bound)]
    rw [decide_eq_false (by omega)]
  · simp only [if_true, Nat.add_mod_left, Nat.mod_eq_of_lt (Nat.lt_of_le_of_lt notNan bound)]
    rw [decide_eq_true (by omega)]

theorem magnitude_ofMagnitude (negative : Bool) {bits : Nat} (notNan : bits ≤ infinityBits) :
    magnitude (ofMagnitude negative bits) = bits := by
  rw [ofMagnitude_eq_packed _ notNan, magnitude_packed_decoded _ notNan]

theorem isNegative_ofMagnitude (negative : Bool) {bits : Nat} (notNan : bits ≤ infinityBits) :
    isNegative (ofMagnitude negative bits) = negative := by
  rw [ofMagnitude_eq_packed _ notNan, isNegative_packed_decoded _ notNan]

theorem ofMagnitude_magnitude {x : Float} (notNan : magnitude x ≤ infinityBits) :
    ofMagnitude (isNegative x) (magnitude x) = x := by
  rw [ofMagnitude_eq_packed _ notNan, ← unpack_toModel, packed_unpack]

theorem neg_ofMagnitude (negative : Bool) {bits : Nat} (notNan : bits ≤ infinityBits) :
    -ofMagnitude negative bits = ofMagnitude (!negative) bits := by
  rw [ofMagnitude_eq_packed _ notNan, ofMagnitude_eq_packed _ notNan, ← neg_decoded, packed_neg]

end Reckoner.Double
