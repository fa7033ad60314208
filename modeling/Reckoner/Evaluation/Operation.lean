import Reckoner.Evaluation.Operand
import Reckoner.Operation.Arithmetic

set_option autoImplicit false

namespace Reckoner

/-- The opening mark of an intermediate value and its sign, at the start of a text; and what
follows. -/
def splitOpening : Text → Text × Text
  | '{' :: r => (openMark :: (splitOne isSign r).1, (splitOne isSign r).2)
  | t => ([], t)

/-- The row of operand characters at the start of a text, with a closing mark if there is one,
behind what was read before it; and what follows. -/
def closeOperand? (opening t : Text) : Option (Text × Text) :=
  if startsWith isOperandChar t then
    let (closing, rest) := splitOne (· == closeMark) (t.dropWhile isOperandChar)
    some (opening ++ t.takeWhile isOperandChar ++ closing, rest)
  else none

/-- The operand at the start of a text that can stand on the left of an operator; and what follows.
Outside of marks it has a sign only where sums are solved. -/
def leftOperand? (rank : Rank) (t : Text) : Option (Text × Text) :=
  let (sign, r) := if rank = .sum then splitOne isSign t else ([], t)
  let (opening, r) := splitOpening r
  closeOperand? (sign ++ opening) r

/-- The operand at the start of a text that can stand on the right of an operator; and what
follows. -/
def rightOperand? (t : Text) : Option (Text × Text) :=
  let (sign, r) := splitOne isSign t
  let (mark, r) := splitOne (· == openMark) r
  let (inner, r) := splitOne isSign r
  closeOperand? (sign ++ mark ++ inner) r

/-- An operator between two operands, as they are written. -/
structure Operation where
  left : Text
  operator : Operator
  right : Text

/-- The operation of this rank at the start of a text; and what follows. -/
def operationAt? (rank : Rank) (t : Text) : Option (Operation × Text) :=
  match leftOperand? rank t with
  | some (left, c :: r) =>
    match Operator.ofChar? c with
    | some operator =>
      if operator.rank = rank then
        (rightOperand? r).map fun (right, rest) => (⟨left, operator, right⟩, rest)
      else none
    | none => none
  | _ => none

/-- Whether a character belongs to the row of operand characters that another one begins. -/
def continuesRow (first c : Char) : Bool := isOperandChar first && isOperandChar c

/-- The leftmost operation of this rank, with what stands before and after it. A row of operand
characters is passed over at once, since an operation begins with the whole row or not in it. -/
def findOperation? (rank : Rank) : Text → Option (Text × Operation × Text)
  | [] => none
  | c :: r =>
    match operationAt? rank (c :: r) with
    | some (operation, after) => some ([], operation, after)
    | none =>
      (findOperation? rank (r.dropWhile (continuesRow c))).map fun (before, found) =>
        (c :: (r.takeWhile (continuesRow c) ++ before), found)
termination_by t => t.length
decreasing_by exact Nat.lt_succ_of_le (length_dropWhile_le _ _)

/-- Whether an operation divides a negated NaN by zero. -/
def Operation.dividesNegatedNaN (bindings : Bindings) (operation : Operation) (y : Float) : Bool :=
  operation.operator = .divide && y == 0 && isNegatedNaN bindings operation.left

/-- The value of an operation. A quotient by zero has the signs of its operands, so there a negated
NaN does the same as minus one. -/
def Operation.solve (context : Context) (operation : Operation) : Except Fault Float := do
  let x ← resolveOperand context operation.left
  let y ← resolveOperand context operation.right
  let dividend := if operation.dividesNegatedNaN context.bindings y then -1 else x
  let result ← operate operation.operator dividend y
  if result.isNaN then throw (.undefinedOperation operation.operator.symbol x y)
  return result

end Reckoner
