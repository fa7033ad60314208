import Reckoner.Session.Basic
import Reckoner.Settings.File

set_option autoImplicit false

namespace Reckoner

/-- A settings file and the session that was set up from it, if that has happened. -/
structure Shared where
  file : SettingsFile
  session : Option Session

namespace Shared

def obtain (shared : Shared) : Except Mishap Session :=
  match shared.session with
  | some session => .ok session
  | none => do
    let settings ← shared.file.load
    return Session.start (← settings.setup .none)

/-- A call of the shared session. Where the session cannot be set up there is none afterwards. -/
def call {α : Type} (shared : Shared) (f : Session → Reply α) : Except Refusal α × Shared :=
  match shared.obtain with
  | .error m => (.error (.mishap m), shared)
  | .ok session =>
    let reply := f session
    (reply.outcome, { shared with session := some reply.session })

def solve (shared : Shared) (bindings : Bindings) (raw : Text) :
    Except Refusal (Option Float) × Shared :=
  shared.call fun session => session.solve bindings raw

def check (shared : Shared) (raw : Text) : Except Refusal Bool × Shared :=
  shared.call fun session => session.check raw

def drop (shared : Shared) : Shared := { shared with session := none }

end Shared

end Reckoner
