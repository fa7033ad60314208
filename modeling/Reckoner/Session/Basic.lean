import Reckoner.Session.Setup

set_option autoImplicit false

namespace Reckoner

/-- What a session remembers of its last call. -/
structure Memory where
  expression : Option Text
  bindings : Bindings
  fault : Option Report
  result : Option Float

structure Session where
  setup : Setup
  memory : Memory

/-- What a call gives, and the session after it. -/
structure Reply (α : Type) where
  events : List Event
  outcome : Except Refusal α
  session : Session

namespace Session

def start (setup : Setup) : Session := ⟨setup, ⟨none, [], none, none⟩⟩

/-- Whether an expression passes the check. The memory of variables and result stays. -/
def check (session : Session) (raw : Text) : Reply Bool :=
  let checked := session.setup.checked raw
  let remember (expression : Text) (fault : Option Report) : Session :=
    { session with memory := { session.memory with expression := some expression, fault } }
  match checked.outcome with
  | .ok t => ⟨checked.events, .ok true, remember t none⟩
  | .error (.fault r) => ⟨checked.events, .ok false, remember raw (some r)⟩
  | .error (.mishap m) => ⟨checked.events, .error (.mishap m), remember raw none⟩

/-- The rounded value of an expression; there is none when something is wrong with it, which is
then remembered. A mishap leaves the memory as it was. -/
def solve (session : Session) (bindings : Bindings) (raw : Text) : Reply (Option Float) :=
  let evaluated := session.setup.evaluate bindings raw
  match evaluated.outcome with
  | .error m => ⟨evaluated.events, .error (.mishap m), session⟩
  | .ok evaluation =>
    let memory : Memory :=
      ⟨some (evaluation.canonical.getD raw), bindings, evaluation.fault, evaluation.value⟩
    ⟨evaluated.events, .ok evaluation.value, { session with memory }⟩

def calculate (session : Session) (bindings : Bindings) (raw : Text) : Reply Text :=
  let checked := session.setup.checked raw
  let remember (expression : Text) (fault : Option Report) (result : Option Float) : Session :=
    { session with memory := ⟨some expression, bindings, fault, result⟩ }
  match checked.outcome with
  | .error refusal => ⟨checked.events, .error refusal, remember raw refusal.report? none⟩
  | .ok t =>
    let executed := session.setup.execute bindings raw t
    let events := checked.events ++ executed.events
    match executed.outcome with
    | .error r => ⟨events, .error (.fault r), remember t (some r) none⟩
    | .ok x =>
      match Display.round session.setup.style.places x with
      | .error m => ⟨events, .error (.mishap m), remember t none none⟩
      | .ok rounded =>
        let line := (Display.line session.setup.style x).mapError Refusal.mishap
        ⟨events, line, remember t none (some rounded)⟩

end Session

end Reckoner
