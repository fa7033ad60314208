import Reckoner.Json.Reader
import Reckoner.Json.Writer
import Reckoner.Settings.Basic

set_option autoImplicit false

namespace Reckoner

/-- A place for settings, which can be written where there is a directory for it. -/
structure SettingsFile where
  path : Text
  content : Option Text
  writable : Bool

namespace SettingsFile

def load (file : SettingsFile) : Except Mishap Settings :=
  match file.content.map Json.read with
  | some (.ok json) => Settings.standard.overlayJson json
  | some (.error (.tooManyDigits n)) => .error (.tooManyDigits n)
  | some (.error .malformed) | none => .ok Settings.standard

/-- The value of one setting, which is zero for a name that has none; or all settings together. -/
def loadValue (file : SettingsFile) (name : Settings.Name) : Except Mishap Json := do
  let settings ← file.load
  return if name == .text "all".toList then settings.toJson
    else (settings.get? name).getD (.integer 0)

/-- How saving a value went, and the file after it. Of a value that cannot be written the file holds
what comes before the place where that shows, and nothing of what it held. -/
def save (file : SettingsFile) (json : Json) : Except Failure Unit × SettingsFile :=
  if file.writable then
    let output := json.written
    (match output.mishap with
      | none => .ok ()
      | some m => .error (.mishap m), { file with content := some output.text })
  else
    let reason := "[Errno 2] No such file or directory: " ++ quotedString file.path
    (.error (.fault (.unsavable file.path reason)), file)

end SettingsFile

end Reckoner
