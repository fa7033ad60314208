import Reckoner.CommandLine.Arguments
import Reckoner.CommandLine.Dialogue
import Reckoner.Settings.File

set_option autoImplicit false

namespace Reckoner.CommandLine

/-- How a run ends. -/
inductive Ending where
  | exit (code : Nat)
  | usage (e : UsageError)
  | help
  | mishap (m : Mishap)
deriving DecidableEq

def programName : String := "calc-engine"

def usage : String :=
  "usage: " ++ programName ++ " [-h] [--var NAME=VALUE] [--radians | --degrees] [--fractions]" ++
    " [--check] [--show-equation] [--copy] [--debug] [--save] [expression]"

def usageLine (e : UsageError) : String := programName ++ ": error: " ++ e.message

/-- What is put out before the dialogue, the settings file after it, and how the run goes on. -/
structure Opening where
  emissions : List Emission
  file : SettingsFile
  next : Ending ⊕ (Manner × Dialogue)

/-- What a run puts out, the settings file after it, and how it ends. -/
structure Run where
  emissions : List Emission
  file : SettingsFile
  ending : Ending

def evaluateOnce (session : Session) (manner : Manner) (bindings : Bindings) (expression : Text) :
    List Emission × Ending :=
  let reply := session.calculate bindings expression
  let log := logLines session.setup reply.events
  match reply.outcome with
  | .ok result => (log ++ resultLines session.setup manner expression result, .exit 0)
  | .error (.fault r) => (log ++ [.err (reportLines r)], .exit (exitCode r))
  | .error (.mishap m) => (log, .mishap m)

def checkOnce (session : Session) (expression : Text) : List Emission × Ending :=
  let reply := session.check expression
  let log := logLines session.setup reply.events
  match reply.outcome with
  | .error (.mishap m) => (log, .mishap m)
  | _ =>
    match reply.session.memory.fault with
    | none =>
      let form := reply.session.memory.expression.getD []
      (log ++ [.out ("Valid: " ++ String.ofList form)], .exit 0)
    | some r => (log ++ [.err ("Error " ++ r.code ++ ": " ++ r.detail)], .exit (exitCode r))

namespace Request

def stored (request : Request) : Settings :=
  let flag (given : Bool) (name : Text) : Settings :=
    if given then [(.text name, .truth true)] else []
  (request.radians.elim [] fun b => [(.text Settings.radiansKey, .truth b)]) ++
    flag request.fractions Settings.fractionsKey ++ flag request.debug Settings.debugKey ++
    flag request.copy Settings.copyKey

def overrides (request : Request) : Settings.Overrides where
  angles := request.radians.map AngleMode.ofRadiansFlag
  debug := if request.debug then some true else none
  places := none
  fractions := if request.fractions then some true else none
  constants := none

/-- Bindings with those of a list put into them, of which the first has this position. Nothing is no
pair of a name and a value. -/
def putAssignments (bindings : Bindings) (position : Nat) :
    List (Option (Text × Binding)) → Except Mishap Bindings
  | [] => .ok bindings
  | some (name, binding) :: rest => putAssignments (bindings.put name binding) (position + 1) rest
  | none :: _ => .error (.notAPair position 0)

def proceed (request : Request) (settings : Settings) (clipboard : Clipboard)
    (file : SettingsFile) : Opening :=
  let prepared : Except Mishap (Setup × Bindings) := do
    return (← settings.setup request.overrides, ← putAssignments [] 0 request.assignments)
  match prepared with
  | .error m => ⟨[], file, .inl (.mishap m)⟩
  | .ok (setup, bindings) =>
    let session := Session.start setup
    let manner : Manner :=
      ⟨request.showEquation, request.copy || settings.flag Settings.copyKey, clipboard⟩
    match request.expression with
    | none => ⟨[], file, .inr (manner, ⟨session, bindings⟩)⟩
    | some expression =>
      let (emissions, ending) :=
        if request.check then checkOnce session expression
        else evaluateOnce session manner bindings expression
      ⟨emissions, file, .inl ending⟩

def run (request : Request) (clipboard : Clipboard) (file : SettingsFile) : Opening :=
  match file.load with
  | .error m => ⟨[], file, .inl (.mishap m)⟩
  | .ok settings =>
    if request.save then
      let settings : Settings := settings.overlay request.stored
      match file.save settings.toJson with
      | (.error (.fault fault), file) =>
        let report := fault.report none
        ⟨[.err (reportLines report)], file, .inl (.exit (exitCode report))⟩
      | (.error (.mishap m), file) => ⟨[], file, .inl (.mishap m)⟩
      | (.ok _, file) =>
        let saved := Emission.out ("Settings saved to " ++ String.ofList file.path)
        match request.expression with
        | none => ⟨[saved], file, .inl (.exit 0)⟩
        | some _ =>
          let opening := request.proceed settings clipboard file
          { opening with emissions := saved :: opening.emissions }
    else request.proceed settings clipboard file

end Request

/-- The run for these arguments up to the dialogue. -/
def start (arguments : List Text) (clipboard : Clipboard) (file : SettingsFile) : Opening :=
  match parse arguments with
  | .ok request => request.run clipboard file
  | .error (.usage e) => ⟨[], file, .inl (.usage e)⟩
  | .error .help => ⟨[], file, .inl .help⟩

def run (arguments : List Text) (clipboard : Clipboard) (file : SettingsFile) (input : Text) :
    Run :=
  let opening := start arguments clipboard file
  match opening.next with
  | .inl ending => ⟨opening.emissions, opening.file, ending⟩
  | .inr (manner, dialogue) =>
    let (emissions, mishap) := dialogue.run manner (lines input)
    ⟨opening.emissions ++ emissions, opening.file, mishap.elim (.exit 0) .mishap⟩

end Reckoner.CommandLine
