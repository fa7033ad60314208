import Reckoner.Binding
import Reckoner.Fault.Basic
import Reckoner.Function.Basic
import Reckoner.Expression.Signs

set_option autoImplicit false

namespace Reckoner

/-- What an evaluation may read besides the expression. -/
structure Context where
  bindings : Bindings
  angles : AngleMode

/-- An operand as it is looked up, without marks and with at most one sign. -/
def bareOperand (t : Text) : Text := reduceSigns (stripMarks t)

/-- Whether the text has a minus before a name, and the name. A sign alone is a name. -/
def signedName : Text → Bool × Text
  | c :: d :: r => if isSign c then (c == '-', d :: r) else (false, c :: d :: r)
  | t => (false, t)

def resolveOperand (context : Context) (t : Text) : Except Fault Float :=
  let operand := bareOperand t
  match Numeral.literal? operand with
  | some x => .ok x
  | none =>
    let (negative, name) := signedName operand
    match (context.bindings.get? name).bind Binding.value? with
    | some x => .ok ((if negative then -1 else 1) * x)
    | none => .error (.unknownVariable operand name)

/-- Whether an operand is a variable that holds a negated NaN. A sign in front does not change
that. -/
def isNegatedNaN (bindings : Bindings) (t : Text) : Bool :=
  let operand := bareOperand t
  Numeral.literal? operand = none && bindings.get? (signedName operand).2 = some .negatedNaN

end Reckoner
