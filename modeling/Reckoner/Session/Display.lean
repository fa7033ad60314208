import Reckoner.Decimal.Layout
import Reckoner.Decimal.Places
import Reckoner.Operation.Fraction

set_option autoImplicit false

namespace Reckoner.Display

structure Style where
  places : Int
  fractions : Bool
deriving DecidableEq, Repr

/-- The greatest denominator of a fraction that is shown. -/
def maxDenominator : Nat := 100000

def round (places : Int) (x : Float) : Except Mishap Float :=
  if x.isFinite then
    match Double.roundTo? x places with
    | some rounded => .ok rounded
    | none => .error .roundedTooLarge
  else .ok x

/-- A fraction as text; above one it is mixed, a whole number and a positive proper fraction. -/
def mixedText (n : Int) (d : Nat) : Text :=
  let ratio (n : Int) : String := toString n ++ "/" ++ toString d
  let text :=
    if d < n.natAbs then
      let whole := n / d
      let rest := n % d
      if rest = 0 then toString whole
      else if whole < 0 then toString (whole + 1) ++ " " ++ ratio (d - rest)
      else toString whole ++ " " ++ ratio rest
    else ratio n
  text.toList

/-- A number as a fraction with a small denominator, unless every such fraction rounds to another
number. -/
def fraction (places : Int) (x : Float) : Except Mishap (Option Text) :=
  if x.isNaN then .error .nanAsRatio
  else if x.isInf then .error .infinityAsRatio
  else do
    let f := Fraction.limitDenominator maxDenominator (Double.toRat x)
    let back ← round places (Double.ofRatio f.num f.den)
    return if back == x then some (mixedText f.num f.den) else none

def result (style : Style) (x : Float) : Except Mishap (Text × Bool) :=
  if !x.isFinite then .ok (Double.plain x, false)
  else do
    let rounded ← round style.places x
    let fraction ←
      if style.fractions && !Double.isWhole rounded then fraction style.places rounded
      else pure none
    match fraction with
    | some t => return (t, false)
    | none => return (Double.plain rounded, rounded != x)

def line (style : Style) (x : Float) : Except Mishap Text := do
  let (t, rounded) ← result style x
  return (if rounded then '≈' else '=') :: ' ' :: t

end Reckoner.Display
