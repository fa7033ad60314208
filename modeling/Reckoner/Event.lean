import Reckoner.Fault.Report
import Reckoner.Operation.Basic

set_option autoImplicit false

/- Events: the checkpoints that a call passes while it normalizes, checks and evaluates an expression.
Nothing depends on them; they are what a log or a trace shows. -/
namespace Reckoner

/-- A checkpoint with what is known there. A call or an operation comes with the segment in which its
value stands in its place. -/
inductive Event where
  | given (t : Text)
  | constantsReplaced (t : Text)
  | spacesRemoved (t : Text)
  | numeralsExpanded (t : Text)
  | signsReduced (t : Text)
  | glyphsReplaced (t : Text)
  | productsMarked (t : Text)
  | checkStarted
  | parenthesesChecked
  | operatorsChecked
  | pointsChecked
  | charactersChecked
  | evaluationStarted
  | groupFound (t : Text)
  | segmentFound (t : Text)
  | callsSolved (t : Text)
  | callSolved (call : Text) (result : Float) (segment : Text)
  | operationSolved (rank : Rank) (left : Text) (operator : Operator) (right : Text)
      (result : Float) (segment : Text)
  | evaluated (x : Float)
  | checkFailed (r : Report)
  | evaluationFailed (r : Report)
deriving DecidableEq

namespace Event

inductive Content where
  | datum (d : Datum)
  | fields (f : List (String × Datum))
  | report (r : Report)
deriving DecidableEq

def stage : Event → String
  | given _ => "initial-expression"
  | constantsReplaced _ => "fix-replace-constant"
  | spacesRemoved _ => "fix-white-spaces"
  | numeralsExpanded _ => "fix-scientific-notation"
  | signsReduced _ => "fix-operators-reduction"
  | glyphsReplaced _ => "fix-replace-special-operators"
  | productsMarked _ => "fix-multiplication-without-operator"
  | checkStarted => "starting-syntax-verification"
  | parenthesesChecked => "syntax-parenthesis"
  | operatorsChecked => "syntax-operators"
  | pointsChecked => "syntax-decimals"
  | charactersChecked => "syntax-invalid-chars"
  | evaluationStarted => "starting-operation"
  | groupFound _ => "operating-expression"
  | segmentFound _ => "operating-simple-expression"
  | callsSolved _ => "solved-functions"
  | callSolved .. => "solving-function"
  | operationSolved .. => "solving-operation"
  | evaluated _ => "expression-result"
  | checkFailed _ => "syntax-error"
  | evaluationFailed _ => "execution-error"

def content : Event → Content
  | given t | constantsReplaced t | spacesRemoved t | numeralsExpanded t | signsReduced t
  | glyphsReplaced t | productsMarked t | groupFound t | segmentFound t | callsSolved t =>
    .datum (.text t)
  | checkStarted | parenthesesChecked | operatorsChecked | pointsChecked | charactersChecked
  | evaluationStarted => .datum .absent
  | callSolved call result segment =>
    .fields [("function", .text call), ("result", .number result), ("exp", .text segment)]
  | operationSolved rank left operator right result segment =>
    .fields [("pass", .text rank.name.toList), ("leftOperand", .text left),
      ("operator", .text [operator.symbol]), ("rightOperand", .text right),
      ("result", .number result), ("exp", .text segment)]
  | evaluated x => .datum (.number x)
  | checkFailed r | evaluationFailed r => .report r

/-- The form that log lines show: the stage, and what it shows, if that is anything. -/
def logged (e : Event) : String :=
  match e.content with
  | .datum .absent => e.stage
  | .datum d => e.stage ++ ": " ++ d.logged
  | .fields f => e.stage ++ ": " ++ loggedFields f
  | .report r => e.stage ++ ": " ++ r.logged

end Event

end Reckoner
