import Reckoner.Session.Basic

set_option autoImplicit false

namespace Reckoner.CommandLine

inductive Emission where
  | prompt
  | out (s : String)
  | err (s : String)
  | copied (t : Text)
deriving DecidableEq

/-- Whether texts can be copied, and if not, why. -/
inductive Clipboard where
  | working
  | broken (reason : String)
deriving DecidableEq

structure Manner where
  showEquation : Bool
  copy : Bool
  clipboard : Clipboard

/-- A report in three lines: a headline, what happened, and the expression. -/
def reportLines (r : Report) : String :=
  "Error " ++ r.code ++ ": " ++ Fault.describe r.code ++
    "\nDetails: " ++ r.detail ++
    "\nEquation: " ++ (r.equation.elim "None" String.ofList)

/-- The exit code for a report: what is wrongly written, what has no value, and the rest. -/
def exitCode (r : Report) : Nat :=
  match r.family with
  | .syntactic => 1
  | .execution => 2
  | .other => 3

def logLines (setup : Setup) (events : List Event) : List Emission :=
  if setup.debug then events.map fun e => .err ("calc_engine - DEBUG - " ++ e.logged) else []

/-- A warning, with its origin where there is a log. -/
def warning (setup : Setup) (s : String) : Emission :=
  .err (if setup.debug then "calc_engine.UI - WARNING - " ++ s else s)

def copyResult (setup : Setup) (manner : Manner) (t : Text) : List Emission :=
  if manner.copy then
    match manner.clipboard with
    | .working => [.copied t]
    | .broken reason => [warning setup ("Could not copy to clipboard: " ++ reason)]
  else []

/-- A result, perhaps behind its expression. The copy leaves out the sign before the result. -/
def resultLines (setup : Setup) (manner : Manner) (expression result : Text) : List Emission :=
  let line := if manner.showEquation then expression ++ ' ' :: result else result
  .out (String.ofList line) :: copyResult setup manner (result.drop 2)

end Reckoner.CommandLine
