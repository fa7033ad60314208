import Reckoner.Evaluation.Calls
import Reckoner.Evaluation.Splice

set_option autoImplicit false

namespace Reckoner

/-- The segment with all operations of a rank solved, from left to right. A negative value can meet
another sign, so signs are reduced after every operation. -/
def solveRank (context : Context) (rank : Rank) (t : Text) : Traced Fault Text :=
  match _found : findOperation? rank t with
  | none => pure t
  | some (before, operation, after) => do
    let result ← Traced.ofExcept (operation.solve context)
    let solved := before ++ Double.plain result ++ after
    Traced.emit
      (.operationSolved rank operation.left operation.operator operation.right result solved)
    solveRank context rank (reduceSigns solved)
termination_by operandRuns false t
decreasing_by exact operandRuns_solved_lt _found result

def solveOperations (context : Context) (t : Text) : Traced Fault Text :=
  Rank.all.foldlM (fun t rank => solveRank context rank t) t

/-- An intermediate value, in marks. -/
def markValue (t : Text) : Text := openMark :: bareOperand t ++ [closeMark]

def solveSegment (context : Context) (t : Text) : Traced Failure Text := do
  Traced.emit (.segmentFound t)
  let t ← solveCalls context [] t
  Traced.emit (.callsSolved t)
  let t ← (solveOperations context t).mapError .fault
  return markValue t

end Reckoner
