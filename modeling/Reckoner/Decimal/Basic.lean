import Reckoner.Double.Basic

set_option autoImplicit false

/- Decimals, a natural coefficient times a power of ten, and the double that each of them reads as.
`shortest` goes the other way: of the decimals that read as a given double it takes one on the
coarsest decimal grid that holds any, the nearest there. -/
namespace Reckoner

/-- An unsigned decimal, coefficient * 10^exponent. -/
structure Decimal where
  coefficient : Nat
  exponent : Int
deriving DecidableEq, Repr

namespace Decimal

def ratio (d : Decimal) : Nat × Nat :=
  (d.coefficient * 10 ^ d.exponent.toNat, 10 ^ (-d.exponent).toNat)

/-- The bits of the magnitude that the decimal reads as. Beyond 10^400 everything is infinite and
below 10^-400 everything is zero, so that no larger power of ten is ever computed. -/
def bits (d : Decimal) : Nat :=
  if d.coefficient = 0 then 0
  else if 400 < d.exponent then Double.infinityBits
  else if d.exponent + Nat.log2 d.coefficient + 1 < -400 then 0
  else Double.nearest d.ratio.1 d.ratio.2

/-- The same decimal without zeros at the end of its coefficient. -/
def strip (d : Decimal) : Decimal :=
  if h : d.coefficient ≠ 0 ∧ d.coefficient % 10 = 0 then
    strip ⟨d.coefficient / 10, d.exponent + 1⟩
  else d
termination_by d.coefficient
decreasing_by exact Nat.div_lt_self (Nat.pos_of_ne_zero h.1) (by decide)

/-- The point of the grid 10^k nearest to n units that reads as `bits`, if one does. Only the two
neighbours of the value can; of two equally near the even one is taken. -/
def onGrid? (bits n : Nat) (k : Int) : Option Decimal :=
  let top := n * 10 ^ (-k).toNat
  let step := Double.unit * 10 ^ k.toNat
  let low : Decimal := ⟨top / step, k⟩
  let high : Decimal := ⟨top / step + 1, k⟩
  match low.bits == bits, high.bits == bits with
  | true, true => some ⟨Double.roundHalfEven top step, k⟩
  | true, false => some low
  | false, true => some high
  | false, false => none

/-- The exact value of n units. -/
def ofUnits (n : Nat) : Decimal := ⟨n * 5 ^ 1074, -1074⟩

/-- The decimal with the fewest digits that reads as the finite nonzero magnitude with these bits.
Seventeen digits always suffice; the grids tried begin just above the value. -/
def shortest (bits : Nat) : Decimal :=
  let n := Double.units bits
  let start : Int := ((Nat.log2 n : Int) - 1073) * 30103 / 100000 + 1
  let found := (List.range 21).findSome? fun (i : Nat) => onGrid? bits n (start - i)
  strip (found.getD (ofUnits n))

def digits (d : Decimal) : List Char := Nat.toDigits 10 d.coefficient

/-- Digits with a point, never with an exponent. -/
def positional (d : Decimal) : List Char :=
  let places := (-d.exponent).toNat
  let digits := d.digits ++ List.replicate d.exponent.toNat '0'
  if places = 0 then digits
  else
    let padded := List.replicate (places + 1 - digits.length) '0' ++ digits
    padded.take (padded.length - places) ++ '.' :: padded.drop (padded.length - places)

/-- One digit, the others after a point, and a power of ten with a sign and at least two digits. -/
def scientific (d : Decimal) : List Char :=
  let power := d.exponent + ((d.digits.length : Int) - 1)
  let mantissa := match d.digits with
    | [] => []
    | [c] => [c]
    | c :: rest => c :: '.' :: rest
  let size := Nat.toDigits 10 power.natAbs
  mantissa ++ ['e', if power < 0 then '-' else '+'] ++
    List.replicate (2 - size.length) '0' ++ size

end Decimal

end Reckoner
