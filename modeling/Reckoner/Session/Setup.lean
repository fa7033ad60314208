import Reckoner.Evaluation.Groups
import Reckoner.Expression.Canonical
import Reckoner.Expression.Check
import Reckoner.Session.Display

set_option autoImplicit false

namespace Reckoner

structure Setup where
  angles : AngleMode
  debug : Bool
  style : Display.Style
  constants : Table Text Constant

/-- Degrees, no log, twelve places, no fractions, and the built-in constants. -/
def Setup.standard : Setup := ⟨.degrees, false, ⟨12, false⟩, Constant.builtin⟩

inductive Refusal where
  | fault (r : Report)
  | mishap (m : Mishap)
deriving DecidableEq

def Refusal.report? : Refusal → Option Report
  | fault r => some r
  | mishap _ => none

structure Evaluation where
  value : Option Float
  canonical : Option Text
  fault : Option Report

namespace Setup

def checked (setup : Setup) (raw : Text) : Traced Refusal Text := do
  let t ← (canonical setup.constants raw).mapError .mishap
  (check t).handle fun fault => do
    let report := fault.report (some raw)
    Traced.emit (.checkFailed report)
    Traced.fail (.fault report)
  return t

/-- The value of a checked canonical form. A mishap on the way is reported like a fault. -/
def execute (setup : Setup) (bindings : Bindings) (raw t : Text) : Traced Report Float :=
  (solveExpression ⟨bindings, setup.angles⟩ t).handle fun
    | .fault fault => do
      let report := fault.report (some raw)
      Traced.emit (.evaluationFailed report)
      Traced.fail report
    | .mishap mishap => Traced.fail (mishap.asFault.report (some raw))

def evaluate (setup : Setup) (bindings : Bindings) (raw : Text) : Traced Mishap Evaluation :=
  let checked := setup.checked raw
  match checked.outcome with
  | .error (.mishap m) => ⟨checked.events, .error m⟩
  | .error (.fault r) => ⟨checked.events, .ok ⟨none, none, some r⟩⟩
  | .ok t =>
    let executed := setup.execute bindings raw t
    ⟨checked.events ++ executed.events, match executed.outcome with
      | .error r => .ok ⟨none, some t, some r⟩
      | .ok x => (Display.round setup.style.places x).map fun x => ⟨some x, some t, none⟩⟩

end Setup

end Reckoner
