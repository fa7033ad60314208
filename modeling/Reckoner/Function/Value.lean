import Reckoner.Function.Basic
import Reckoner.Decimal.Places
import Reckoner.Operation.Arithmetic
import Reckoner.Expression.Constants

set_option autoImplicit false

namespace Reckoner

/-- One degree in radians. -/
def degree : Float := Constant.pi / 180

def AngleMode.toRadians (mode : AngleMode) (angle : Float) : Float :=
  match mode with
  | degrees => angle * degree
  | radians => angle

def AngleMode.ofRadians (mode : AngleMode) (angle : Float) : Float :=
  match mode with
  | degrees => angle / degree
  | radians => angle

namespace Trig

/-- A sine or a cosine to fifteen places, so that the zeros of both are exact. -/
def settled (x : Float) : Float :=
  if x.isFinite then (Double.roundTo? x 15).getD x else x

def value (mode : AngleMode) (f : Trig) (x : Float) : Float :=
  let sine := settled (mode.toRadians x).sin
  let cosine := settled (mode.toRadians x).cos
  match f with
  | sin => sine
  | cos => cosine
  | tan => divide sine cosine
  | asin => mode.ofRadians x.asin
  | acos => mode.ofRadians x.acos
  | atan => mode.ofRadians x.atan
  | csc => divide 1 sine
  | sec => divide 1 cosine
  | cot => divide 1 (divide sine cosine)

end Trig

namespace Function

def logValue (x : Float) : Float := if x ≤ 0 then Double.nan else x.log10

def lnValue (x : Float) : Float := if x ≤ 0 then Double.nan else x.log

/-- A whole number near a finite number; what is not finite stays. -/
def wholeNear (near : Float → Int) (x : Float) : Float :=
  if x.isFinite then Double.ofRatio (near x) 1 else x

/-- The nearest whole number; a half goes up. -/
def roundHalfUp (x : Float) : Int :=
  let below := Double.floor x
  if x - Double.ofRatio below 1 ≥ 0.5 then below + 1 else below

/-- The product of the whole numbers up to n, computed from the least to the greatest. -/
def product (n : Nat) : Float :=
  (List.range n).foldl (fun x i => x * Float.ofNat (i + 1)) 1

/-- The factorial of a number that is whole and not negative; from 171 on it is infinite. -/
def factorial (x : Float) : Except Fault Float :=
  if x ≥ 171 then .ok (Double.infinity false)
  else if x == 0 then .ok 1
  else if Double.isWhole x && x > 0 then .ok (product (Double.truncate x).toNat)
  else .error (.factorialArgument x)

def apply (mode : AngleMode) (f : Function) (x : Float) : Except Fault Float :=
  match f with
  | trig g =>
    if (g = .asin ∨ g = .acos) ∧ (x < -1 ∨ x > 1) then .error (.inverseArgument f.name x)
    else .ok (g.value mode x)
  | log => if x > 0 then .ok (logValue x) else .error (.logarithmArgument f.name x)
  | ln => if x > 0 then .ok (lnValue x) else .error (.logarithmArgument f.name x)
  | exp => .ok x.exp
  | abs => .ok x.abs
  | round => .ok (wholeNear roundHalfUp x)
  | floor => .ok (wholeNear Double.floor x)
  | ceil => .ok (wholeNear Double.ceil x)
  | fact =>
    if x.isInf && x > 0 then .ok x
    else if !Double.isWhole x || x < 0 then .error (.factorialArgument x)
    else factorial x

end Function

end Reckoner
