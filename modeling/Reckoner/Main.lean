import Reckoner.CommandLine.Run

set_option autoImplicit false

namespace Reckoner.CommandLine

def emit : Emission → IO Unit
  | .prompt => do
    IO.print "> "
    (← IO.getStdout).flush
  | .out s => IO.println s
  | .err s => IO.eprintln s
  | .copied _ => pure ()

def finish : Ending → IO UInt32
  | .exit code => return UInt32.ofNat code
  | .help => do
    IO.println usage
    return 0
  | .usage e => do
    IO.eprintln usage
    IO.eprintln (usageLine e)
    return 2
  | .mishap m => do
    IO.eprintln m.message
    return 1

/-- Holds the dialogue until the input or the dialogue ends. -/
partial def converse (manner : Manner) (d : Dialogue) : IO UInt32 := do
  emit .prompt
  let line ← (← IO.getStdin).getLine
  if line.isEmpty then return 0
  let (emissions, next) := d.answer manner line.toList
  emissions.forM emit
  match next with
  | .line d => converse manner d
  | .finished => return 0
  | .mishap m => finish (.mishap m)

def readIfThere (path : String) : IO (Option Text) := do
  try
    return some (← IO.FS.readFile path).toList
  catch _ => return none

def openRun (arguments : List Text) (path : String) : IO Opening := do
  let clipboard := Clipboard.broken "no clipboard"
  let file : SettingsFile := ⟨path.toList, ← readIfThere path, true⟩
  let opening := start arguments clipboard file
  if opening.file.content = file.content then return opening
  try
    IO.FS.writeFile path (String.ofList (opening.file.content.getD []))
    return opening
  catch _ => return start arguments clipboard { file with writable := false }

def runProgram (arguments : List String) : IO UInt32 := do
  let path ← match ← IO.getEnv "CALC_ENGINE_CONFIG" with
    | some path => pure (if path.isEmpty then "config.json" else path)
    | none => pure "config.json"
  let opening ← openRun (arguments.map String.toList) path
  opening.emissions.forM emit
  match opening.next with
  | .inl ending => finish ending
  | .inr (manner, dialogue) => converse manner dialogue

end Reckoner.CommandLine

def main (arguments : List String) : IO UInt32 := Reckoner.CommandLine.runProgram arguments
