set_option autoImplicit false

/- Decimal digits of all scripts (Unicode 14, general category Nd). They come in groups of ten
consecutive code points, from zero to nine, so the table holds the zeros only. -/
namespace Reckoner

def decimalZeros : List Nat := [
  0x30, 0x660, 0x6F0, 0x7C0, 0x966, 0x9E6, 0xA66, 0xAE6, 0xB66, 0xBE6, 0xC66, 0xCE6, 0xD66,
  0xDE6, 0xE50, 0xED0, 0xF20, 0x1040, 0x1090, 0x17E0, 0x1810, 0x1946, 0x19D0, 0x1A80, 0x1A90,
  0x1B50, 0x1BB0, 0x1C40, 0x1C50, 0xA620, 0xA8D0, 0xA900, 0xA9D0, 0xA9F0, 0xAA50, 0xABF0,
  0xFF10, 0x104A0, 0x10D30, 0x11066, 0x110F0, 0x11136, 0x111D0, 0x112F0, 0x11450, 0x114D0,
  0x11650, 0x116C0, 0x11730, 0x118E0, 0x11950, 0x11C50, 0x11D50, 0x11DA0, 0x16A60, 0x16AC0,
  0x16B50, 0x1D7CE, 0x1D7D8, 0x1D7E2, 0x1D7EC, 0x1D7F6, 0x1E140, 0x1E2F0, 0x1E950, 0x1FBF0]

def digitValue? (c : Char) : Option Nat :=
  if c.toNat < 128 then
    if c.isDigit then some (c.toNat - 48) else none
  else (decimalZeros.find? fun z => z ≤ c.toNat && c.toNat < z + 10).map (c.toNat - ·)

def isDecimalDigit (c : Char) : Bool := (digitValue? c).isSome

/-- The number that a row of digits writes, whatever else stands among them counting as zero. -/
def digitsValue (t : List Char) : Nat := t.foldl (fun n c => 10 * n + (digitValue? c).getD 0) 0

theorem bound_of_isDigit {c : Char} (digit : c.isDigit = true) : c.val.toNat ≤ 57 := by
  simp only [Char.isDigit, Bool.and_eq_true, decide_eq_true_eq] at digit
  exact digit.2

theorem isDecimalDigit_of_isDigit {c : Char} (h : c.isDigit = true) : isDecimalDigit c = true := by
  have bound : c.toNat < 128 := Nat.lt_of_le_of_lt (bound_of_isDigit h) (by decide)
  simp [isDecimalDigit, digitValue?, bound, h]

/-- The letters stand behind the digits, and all are ASCII characters. -/
theorem bounds_of_isAlpha {c : Char} (letter : c.isAlpha = true) :
    65 ≤ c.val.toNat ∧ c.val.toNat ≤ 122 := by
  rcases (Bool.or_eq_true _ _).mp letter with upper | lower
  · obtain ⟨low, high⟩ : c.val ≥ 'A'.val ∧ c.val ≤ 'Z'.val := of_decide_eq_true upper
    exact ⟨UInt32.le_iff_toNat_le.mp low,
      Nat.le_trans (UInt32.le_iff_toNat_le.mp high) (by decide)⟩
  · obtain ⟨low, high⟩ := (Bool.and_eq_true _ _).mp lower
    exact ⟨Nat.le_trans (by decide) (UInt32.le_iff_toNat_le.mp (of_decide_eq_true low)),
      UInt32.le_iff_toNat_le.mp (of_decide_eq_true high)⟩

theorem not_isDigit_of_isAlpha {c : Char} (letter : c.isAlpha = true) : c.isDigit = false := by
  have low := (bounds_of_isAlpha letter).1
  rw [← Bool.not_eq_true]
  intro digit
  have high := bound_of_isDigit digit
  omega

theorem isDecimalDigit_of_isAlpha {c : Char} (letter : c.isAlpha = true) :
    isDecimalDigit c = false := by
  have bound : c.toNat < 128 := Nat.lt_of_le_of_lt (bounds_of_isAlpha letter).2 (by decide)
  unfold isDecimalDigit digitValue?
  rw [if_pos bound, not_isDigit_of_isAlpha letter]
  rfl

end Reckoner
