import Reckoner.Text.Character
import Reckoner.Decimal.Basic

set_option autoImplicit false

/- The two ways in which numbers are written. `plain` is the form that goes back into an expression:
positional, whole numbers without a point, infinity as a name. `shown` is the form of records and
files: positional for magnitudes from 10^-4 up to 10^16, always with a point or an exponent. -/
namespace Reckoner.Double

/-- The name under which an infinite value stands in an expression. -/
def infinityName : Text := ['I', 'n', 'f', 'i', 'n', 'i', 't', 'y']

def signText (negative : Bool) : Text := if negative then ['-'] else []

/-- A number as expressions write it, never with an exponent; both zeros are `0`. -/
def plain (x : Float) : Text :=
  if x.isNaN then ['N', 'a', 'N']
  else if magnitude x = 0 then ['0']
  else signText (isNegative x) ++
    if x.isInf then infinityName else (Decimal.shortest (magnitude x)).positional

/-- A nonzero finite magnitude as records write it. -/
def shownMagnitude (bits : Nat) : Text :=
  let d := Decimal.shortest bits
  let power := d.exponent + ((d.digits.length : Int) - 1)
  if -4 ≤ power ∧ power < 16 then
    d.positional ++ if 0 ≤ d.exponent then ['.', '0'] else []
  else d.scientific

/-- A number as records write it; the sign of zero is kept. -/
def shown (x : Float) : Text :=
  if x.isNaN then ['n', 'a', 'n']
  else signText (isNegative x) ++
    if x.isInf then ['i', 'n', 'f']
    else if magnitude x = 0 then ['0', '.', '0']
    else shownMagnitude (magnitude x)

def shownString (x : Float) : String := .ofList (shown x)

def plainString (x : Float) : String := .ofList (plain x)

end Reckoner.Double
