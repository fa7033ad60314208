import Reckoner.Proofs.Decimal.Nearest

set_option autoImplicit false

namespace Reckoner.Decimal

open Double

theorem bits_of_onGrid? {bits n : Nat} {k : Int} {d : Decimal}
    (found : onGrid? bits n k = some d) : d.bits = bits := by
  simp only [onGrid?] at found
  split at found
  next low high =>
    cases found
    rcases roundHalfEven_eq_or (n * 10 ^ (-k).toNat) (unit * 10 ^ k.toNat) with same | next
    · rw [same]
      exact eq_of_beq low
    · rw [next]
      exact eq_of_beq high
  next low _ =>
    cases found
    exact eq_of_beq low
  next _ high =>
    cases found
    exact eq_of_beq high
  next => contradiction

theorem bits_fives (n a : Nat) : bits ⟨n * 5 ^ a, -(a : Int)⟩ = nearest n (2 ^ a) := by
  have whole : (-(a : Int)).toNat = 0 := by omega
  have places : (- -(a : Int)).toNat = a := by omega
  have tens : 10 ^ a = 2 ^ a * 5 ^ a := by rw [← Nat.mul_pow]
  rw [bits_eq_nearest]
  simp only [ratio, whole, places, Nat.pow_zero, Nat.mul_one, tens]
  exact nearest_scaled (Nat.pow_pos (by decide)) _ _

theorem bits_ofUnits {bits : Nat} (finite : bits < infinityBits) :
    (ofUnits (units bits)).bits = bits := by
  have value := bits_fives (units bits) 1074
  rw [← unit_eq, nearest_units finite] at value
  exact value

/-- A finite magnitude is what its shortest decimal reads as. -/
theorem bits_shortest {bits : Nat} (finite : bits < infinityBits) :
    (shortest bits).bits = bits := by
  unfold shortest
  simp only [bits_strip]
  cases found : (List.range 21).findSome? fun (i : Nat) =>
    onGrid? bits (units bits)
      (((Nat.log2 (units bits) : Int) - 1073) * 30103 / 100000 + 1 - i) with
  | none => exact bits_ofUnits finite
  | some d =>
    obtain ⟨i, _, hit⟩ := List.exists_of_findSome?_eq_some found
    exact bits_of_onGrid? hit

end Reckoner.Decimal
