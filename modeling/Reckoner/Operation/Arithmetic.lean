import Reckoner.Double.Basic
import Reckoner.Fault.Basic
import Reckoner.Operation.Basic

set_option autoImplicit false

namespace Reckoner

/-- A quotient. By zero it is infinite, with the sign of the two operands, unless both are zero;
an infinite dividend stays as it is, and by infinity the quotient is zero. -/
def divide (x y : Float) : Float :=
  if x == 0 && y == 0 then Double.nan
  else if x.isInf && y.isInf then Double.nan
  else if x.isInf && y == 0 then x
  else if y.isInf then 0
  else if y == 0 then Double.infinity (Double.isNegative x != Double.isNegative y)
  else x / y

section Powers

-- The powers of doubles are the system's, which the rules for powers and roots leave open.
variable (pow : Float → Float → Float)

/-- A power of doubles, undefined for one and minus one to an infinite exponent. -/
def powerOrNan (base exponent : Float) : Float :=
  if base.abs == 1 && exponent.isInf then Double.nan else pow base exponent

/-- A power. A zero base needs a positive exponent, a negative base a whole one. -/
def powerBy (base exponent : Float) : Except Fault Float :=
  if base.isNaN || exponent.isNaN then .ok Double.nan
  else if base == 0 && exponent == 0 then .error (.zeroToZero base exponent)
  else if exponent == 0 then .ok 1
  else if base == 0 then
    if exponent > 0 then .ok 0 else .error (.zeroToNegative base exponent)
  else if Double.isWhole exponent || exponent.isInf || base > 0 then
    .ok (powerOrNan pow base exponent)
  else .error (.negativeToFraction base exponent)

/-- A root, the radicand to the power of one over the index. A zero radicand needs a positive
index; a negative one needs an odd index or one whose reciprocal is whole. -/
def rootBy (index radicand : Float) : Except Fault Float :=
  if index.isNaN || radicand.isNaN then .ok Double.nan
  else if index == 0 then .error (.zeroIndex index radicand)
  else if radicand == 0 then
    if index > 0 then .ok 0 else .error (.zeroRadicand index radicand)
  else
    let exponent := 1 / index
    if Double.isWhole exponent || exponent.isInf || radicand > 0 then
      .ok (powerOrNan pow radicand exponent)
    else if Double.isOdd index then .ok (-powerOrNan pow (-radicand) exponent)
    else .error (.negativeRadicand index radicand)

end Powers

def power (base exponent : Float) : Except Fault Float := powerBy Float.pow base exponent

def root (index radicand : Float) : Except Fault Float := rootBy Float.pow index radicand

/-- The exponential of exponent * ln |base| with the sign of the base, which only an even exponent
removes. -/
def signedPower (base exponent : Float) : Float :=
  let magnitude := base.abs
  let logarithm := if magnitude == 0 then Double.infinity true else magnitude.log
  let result := (exponent * logarithm).exp
  if base < 0 && !(Double.isWhole exponent && !Double.isOdd exponent) then -result else result

def operate (operator : Operator) (x y : Float) : Except Fault Float :=
  match operator with
  | .root => root x y
  | .power => power x y
  | .multiply => .ok (x * y)
  | .divide => .ok (divide x y)
  | .add => .ok (x + y)
  | .subtract => .ok (x - y)

def operateText (operator : Text) (x y : Float) : Except Fault Float :=
  let found := match operator with
    | [c] => Operator.ofChar? c
    | _ => none
  match found with
  | some operator => operate operator x y
  | none => .error (.unknownOperator operator)

end Reckoner
