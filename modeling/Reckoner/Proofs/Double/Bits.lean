import Reckoner.Double.Basic
import Mathlib

set_option autoImplicit false

namespace Reckoner.Double

open Float.Model Float.Model.UnpackedFloat

def signOf (negative : Bool) : Sign := if negative then .negative else .positive

def decoded (negative : Bool) (bits : Nat) : UnpackedFloat :=
  if infinityBits < bits then .notANumber
  else if bits = infinityBits then .infinity (signOf negative)
  else if zero : bits = 0 then .zero (signOf negative)
  else if bits < 2 ^ 52 then .finite (signOf negative) bits (-1074) (Nat.pos_of_ne_zero zero)
  else .finite (signOf negative) (2 ^ 52 + bits % 2 ^ 52) (bits / 2 ^ 52 - 1075 : Int) (by omega)

variable (negative : Bool) {bits : Nat}

theorem decoded_nan (above : infinityBits < bits) : decoded negative bits = .notANumber := by
  rw [decoded, if_pos above]

theorem decoded_infinity : decoded negative infinityBits = .infinity (signOf negative) := by
  cases negative <;> rfl

theorem decoded_zero : decoded negative 0 = .zero (signOf negative) := by
  cases negative <;> rfl

theorem decoded_subnormal (positive : 0 < bits) (small : bits < 2 ^ 52) :
    decoded negative bits = .finite (signOf negative) bits (-1074) positive := by
  rw [decoded, if_neg (by unfold infinityBits; omega), if_neg (by unfold infinityBits; omega),
    dif_neg (by omega), if_pos small]

theorem decoded_normal (large : 2 ^ 52 ≤ bits) (below : bits < infinityBits) :
    decoded negative bits =
      .finite (signOf negative) (2 ^ 52 + bits % 2 ^ 52) (bits / 2 ^ 52 - 1075 : Int)
        (by omega) := by
  rw [decoded, if_neg (by omega), if_neg (by omega), dif_neg (by omega), if_neg (by omega)]

/-- Every magnitude belongs to one of five classes. -/
theorem magnitude_cases (bits : Nat) : infinityBits < bits ∨ bits = infinityBits ∨ bits = 0 ∨
    (0 < bits ∧ bits < 2 ^ 52) ∨ (2 ^ 52 ≤ bits ∧ bits < infinityBits) := by
  omega

theorem finite_congr {s : Sign} {m m' : Nat} {e e' : Int} (hm : 0 < m) (hm' : 0 < m')
    (mantissa : m = m') (exponent : e = e') :
    UnpackedFloat.finite s m e hm = .finite s m' e' hm' := by
  subst mantissa exponent
  rfl

theorem toNat_unpackSign (b : BitVec Format.binary64.numBits) :
    (unpackSign b).toNat = b.toNat / 2 ^ 63 := by
  have bound : b.toNat < 2 ^ 64 := b.isLt
  change (b.extractLsb 63 63).toNat = _
  rw [BitVec.extractLsb_toNat, Nat.shiftRight_eq_div_pow]
  change b.toNat / 2 ^ 63 % 2 ^ 1 = _
  omega

theorem toNat_unpackMantissa (b : BitVec Format.binary64.numBits) :
    (unpackMantissa b).toNat = b.toNat % 2 ^ 52 := by
  simp [unpackMantissa]

theorem toNat_unpackExponent (b : BitVec Format.binary64.numBits) :
    (unpackExponent b).toNat = b.toNat / 2 ^ 52 % 2 ^ 11 := by
  simp [unpackExponent, Nat.shiftRight_eq_div_pow]

theorem ofBitVec_unpackSign (b : BitVec Format.binary64.numBits) :
    Sign.ofBitVec (unpackSign b) = signOf (2 ^ 63 ≤ b.toNat) := by
  have bound : b.toNat < 2 ^ 64 := b.isLt
  have zero : (0#1).toNat = 0 := rfl
  simp only [Sign.ofBitVec, signOf, ← BitVec.toNat_inj, toNat_unpackSign, zero]
  by_cases set : 2 ^ 63 ≤ b.toNat
  · rw [if_neg (by omega), if_pos (by simpa using set)]
  · rw [if_pos (by omega), if_neg (by simpa using set)]

theorem unpack_eq_decoded (b : BitVec Format.binary64.numBits) :
    unpack Format.binary64 b = decoded (2 ^ 63 ≤ b.toNat) (b.toNat % 2 ^ 63) := by
  have bound : b.toNat < 2 ^ 64 := b.isLt
  have implicit : (1#1 ++ unpackMantissa b).toNat = 2 ^ 52 + b.toNat % 2 ^ 52 := by
    rw [BitVec.toNat_append, ← Nat.shiftLeft_add_eq_or_of_lt (unpackMantissa b).isLt,
      toNat_unpackMantissa]
    rfl
  have mantissa := toNat_unpackMantissa b
  have exponent := toNat_unpackExponent b
  have ones : unpackExponent b = -1#11 ↔ b.toNat / 2 ^ 52 % 2 ^ 11 = 2047 := by
    rw [← BitVec.toNat_inj, exponent]
    rfl
  have none : unpackExponent b = 0#11 ↔ b.toNat / 2 ^ 52 % 2 ^ 11 = 0 := by
    rw [← BitVec.toNat_inj, exponent]
    rfl
  have blank : unpackMantissa b = 0#52 ↔ b.toNat % 2 ^ 52 = 0 := by
    rw [← BitVec.toNat_inj, mantissa]
    rfl
  have bias : (Format.binary64.exponentBias : Int) = 1023 := rfl
  have width : (Format.binary64.mantissaBitsWithoutImplicit : Int) = 52 := rfl
  unfold UnpackedFloat.unpack
  dsimp only
  rw [ofBitVec_unpackSign, bias, width]
  rcases magnitude_cases (b.toNat % 2 ^ 63) with
    above | infinite | zero | ⟨positive, small⟩ | ⟨large, below⟩
  · unfold infinityBits at above
    rw [decoded_nan _ above, if_pos (ones.2 (by omega)), if_neg (mt blank.1 (by omega))]
  · unfold infinityBits at infinite
    rw [infinite, if_pos (ones.2 (by omega)), if_pos (blank.2 (by omega))]
    exact (decoded_infinity _).symm
  · rw [zero, decoded_zero, if_neg (mt ones.1 (by omega)), if_pos (none.2 (by omega)),
      dif_pos (blank.2 (by omega))]
  · rw [decoded_subnormal _ positive small, if_neg (mt ones.1 (by omega)),
      if_pos (none.2 (by omega)), dif_neg (mt blank.1 (by omega))]
    exact finite_congr _ _ (by omega) (by omega)
  · unfold infinityBits at below
    rw [decoded_normal _ large below, if_neg (mt ones.1 (by omega)), if_neg (mt none.1 (by omega))]
    exact finite_congr _ _ (by omega) (by omega)

theorem toNat_packComponents (s : Sign) (e : BitVec 11) (m : BitVec 52) :
    (packComponents Format.binary64 s e m).toNat =
      2 ^ 63 * s.toBitVec.toNat + 2 ^ 52 * e.toNat + m.toNat := by
  have he := e.isLt
  have hm := m.isLt
  change (s.toBitVec ++ e ++ m).toNat = _
  rw [BitVec.toNat_append, BitVec.toNat_append, ← Nat.shiftLeft_add_eq_or_of_lt hm,
    ← Nat.shiftLeft_add_eq_or_of_lt he]
  simp only [Nat.shiftLeft_eq]
  omega

def joined (negative : Bool) (bits : Nat) : Nat := (if negative then 2 ^ 63 else 0) + bits

theorem toNat_signOf : 2 ^ 63 * (signOf negative).toBitVec.toNat = joined negative 0 := by
  cases negative <;> rfl

theorem joined_eq_add (bits : Nat) : joined negative bits = joined negative 0 + bits := rfl

/-- A finite number whose mantissa has the implicit bit is packed as a normal one. -/
theorem pack_finite (s : Sign) (m : Nat) (e : Int) (positive : 0 < m) :
    UnpackedFloat.pack Format.binary64 (.finite s m e positive) =
      if 2 ^ 11 ≤ (e + 1023 + 52).toNat + 1 then packedInfinity Format.binary64 s
      else if m.log2 + 1 = 53 then
        packComponents Format.binary64 s (.ofNat 11 (e + 1023 + 52).toNat) (.ofNat 52 m)
      else packComponents Format.binary64 s (0#11) (.ofNat 52 m) := rfl

theorem toNat_pack_decoded (notNan : bits ≤ infinityBits) :
    (UnpackedFloat.pack Format.binary64 (decoded negative bits)).toNat = joined negative bits := by
  rcases magnitude_cases bits with
    above | infinite | zero | ⟨positive, small⟩ | ⟨large, below⟩
  · omega
  · rw [infinite, decoded_infinity]
    cases negative <;> rfl
  · rw [zero, decoded_zero]
    cases negative <;> rfl
  · have width : ¬ bits.log2 + 1 = 53 := by
      have bound := (Nat.log2_lt (by omega)).2 small
      omega
    rw [decoded_subnormal _ positive small, pack_finite, if_neg (by decide), if_neg width, toNat_packComponents, toNat_signOf, joined_eq_add _ bits,
      BitVec.toNat_ofNat, BitVec.toNat_ofNat, Nat.mod_eq_of_lt small]
    rfl
  · have width : (2 ^ 52 + bits % 2 ^ 52).log2 + 1 = 53 := by
      have bound : (2 ^ 52 + bits % 2 ^ 52).log2 = 52 := (Nat.log2_eq_iff (by omega)).2 (by omega)
      rw [bound]
    have exponent : ((bits / 2 ^ 52 - 1075 : Int) + 1023 + 52).toNat = bits / 2 ^ 52 := by
      omega
    unfold infinityBits at below
    rw [decoded_normal _ large below, pack_finite, exponent, if_neg (by omega), if_pos width, toNat_packComponents, toNat_signOf,
      joined_eq_add _ bits, BitVec.toNat_ofNat, BitVec.toNat_ofNat]
    omega

/-- The double that an arithmetic result is packed into. -/
def packed (w : UnpackedFloat) : Float := .ofModel (.pack w)

theorem toNat_toBits_packed (w : UnpackedFloat) :
    (packed w).toBits.toNat = (UnpackedFloat.pack Format.binary64 w).toNat := rfl

theorem toNat_toBits_lt (x : Float) : x.toBits.toNat < 2 ^ 64 := x.toBits.toNat_lt

theorem joined_isNegative_magnitude (x : Float) :
    joined (isNegative x) (magnitude x) = x.toBits.toNat := by
  have bound := toNat_toBits_lt x
  unfold joined isNegative magnitude
  by_cases set : 2 ^ 63 ≤ x.toBits.toNat
  · rw [if_pos (by simpa using set)]
    omega
  · rw [if_neg (by simpa using set)]
    omega

/-- The sign bit and the magnitude determine a double. -/
theorem ext_bits {x y : Float} (sign : isNegative x = isNegative y)
    (size : magnitude x = magnitude y) : x = y := by
  have same : x.toBits.toNat = y.toBits.toNat := by
    rw [← joined_isNegative_magnitude, ← joined_isNegative_magnitude, sign, size]
  have bits : x.toBits = y.toBits := UInt64.toNat_inj.1 same
  obtain ⟨⟨a, _⟩⟩ := x
  obtain ⟨⟨b, _⟩⟩ := y
  change a = b at bits
  subst bits
  rfl

theorem unpack_toModel (x : Float) :
    x.toModel.unpack = decoded (isNegative x) (magnitude x) :=
  unpack_eq_decoded x.toModel.toBits.toBitVec

theorem isNegative_of_toNat {x : Float} {negative : Bool} {bits : Nat}
    (h : x.toBits.toNat = joined negative bits) (small : bits < 2 ^ 63) :
    isNegative x = negative := by
  unfold isNegative
  rw [h]
  cases negative
  · simp only [joined, Bool.false_eq_true, if_false, decide_eq_false_iff_not]
    omega
  · simp only [joined, if_true, decide_eq_true_eq]
    omega

theorem magnitude_of_toNat {x : Float} {negative : Bool} {bits : Nat}
    (h : x.toBits.toNat = joined negative bits) (small : bits < 2 ^ 63) :
    magnitude x = bits := by
  unfold magnitude
  rw [h]
  cases negative <;> simp only [joined, Bool.false_eq_true, if_true, if_false] <;> omega

theorem infinityBits_lt : infinityBits < 2 ^ 63 := by decide

theorem isNegative_packed_decoded (notNan : bits ≤ infinityBits) :
    isNegative (packed (decoded negative bits)) = negative :=
  isNegative_of_toNat (toNat_pack_decoded negative notNan)
    (Nat.lt_of_le_of_lt notNan infinityBits_lt)

theorem magnitude_packed_decoded (notNan : bits ≤ infinityBits) :
    magnitude (packed (decoded negative bits)) = bits :=
  magnitude_of_toNat (toNat_pack_decoded negative notNan)
    (Nat.lt_of_le_of_lt notNan infinityBits_lt)

/-- There is one NaN. -/
theorem eq_packed_notANumber {x : Float} (above : infinityBits < magnitude x) :
    x = packed .notANumber := by
  have size : magnitude x = x.toBits.toNat % 2 ^ 63 := rfl
  rw [size] at above
  unfold infinityBits at above
  have canonical : x.toBits.toBitVec = packedNaN Format.binary64 := by
    apply x.toModel.valid.eq_packedNaN
    · apply BitVec.toNat_inj.1
      rw [toNat_unpackExponent]
      change x.toBits.toNat / 2 ^ 52 % 2 ^ 11 = 2047
      omega
    · intro none
      have zero := congrArg BitVec.toNat none
      rw [toNat_unpackMantissa] at zero
      change x.toBits.toNat % 2 ^ 52 = 0 at zero
      omega
  have same : x.toBits.toNat = (packed .notANumber).toBits.toNat :=
    congrArg BitVec.toNat canonical
  apply ext_bits
  · unfold isNegative
    rw [same]
  · unfold magnitude
    rw [same]

/-- Packing undoes unpacking. -/
theorem packed_unpack (x : Float) : packed x.toModel.unpack = x := by
  rw [unpack_toModel]
  by_cases notNan : magnitude x ≤ infinityBits
  · exact ext_bits (isNegative_packed_decoded _ notNan) (magnitude_packed_decoded _ notNan)
  · rw [decoded_nan _ (by omega)]
    exact (eq_packed_notANumber (by omega)).symm

end Reckoner.Double
