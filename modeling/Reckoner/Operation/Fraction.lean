import Reckoner.Double.Basic
import Reckoner.Fault.Mishap

set_option autoImplicit false

namespace Reckoner.Fraction

/-- The double nearest to a quotient. Up to 2^53 both numbers are doubles, and dividing them
rounds once. -/
def quotient (n : Int) (d : Nat) : Float :=
  if n.natAbs ≤ 2 ^ 53 && d ≤ 2 ^ 53 then Float.ofInt n / Float.ofNat d else Double.ofRatio n d

/-- The whole part of a number. Below 2^53 it is a machine integer. -/
def wholePart (x : Float) : Int :=
  if x.abs < 9007199254740992 then x.toInt64.toInt else Double.truncate x

def searchLimit : Nat := 1000000

/-- From the fraction n / d, while it is not the value: the next numerator if it is too small, and
otherwise the next denominator with the numerator that belongs to it. -/
def search (value : Float) : Nat → Int → Nat → Int × Nat
  | 0, n, d => (n, d)
  | steps + 1, n, d =>
    let candidate := quotient n d
    if candidate == value then (n, d)
    else if candidate < value then search value steps (n + 1) d
    else search value steps (wholePart (value * Float.ofNat (d + 1))) (d + 1)

/-- A fraction close to a number that is first rounded to eight places. -/
def ofDouble (x : Float) : Except Failure (Int × Nat) :=
  if !x.isFinite then .error (.fault (.fractionArgument x))
  else
    let scaled := x * 100000000 + 0.5
    if scaled.isInf then .error (.mishap .infinityAsWhole)
    else
      let value := quotient (Double.floor scaled) 100000000
      .ok (search value searchLimit (Double.ceil value) 1)

/-- Two successive convergents p/q of a continued fraction, the later one second. -/
structure Convergents where
  p₀ : Int
  q₀ : Nat
  p₁ : Int
  q₁ : Nat

/-- The last convergents of n / d whose denominators are within the bound. -/
def convergents (bound : Nat) (c : Convergents) (n : Int) (d : Nat) : Convergents :=
  if _h : d = 0 then c
  else
    let a := n / d
    let q := c.q₀ + a.toNat * c.q₁
    if bound < q then c
    else convergents bound ⟨c.p₁, c.q₁, c.p₀ + a * c.p₁, q⟩ d (n % d).toNat
termination_by d
decreasing_by
  have := Int.emod_lt_of_pos n (b := d) (by omega)
  have := Int.emod_nonneg n (b := d) (by omega)
  omega

def limitDenominator (bound : Nat) (x : Rat) : Rat :=
  if x.den ≤ bound then x
  else
    let c := convergents bound ⟨0, 1, 1, 0⟩ x.num x.den
    let k := (bound - c.q₀) / c.q₁
    let far := mkRat (c.p₀ + k * c.p₁) (c.q₀ + k * c.q₁)
    let near := mkRat c.p₁ c.q₁
    if (near - x).abs ≤ (far - x).abs then near else far

end Reckoner.Fraction
