import Reckoner.Session.Setup
import Reckoner.Settings.Name

set_option autoImplicit false

namespace Reckoner

abbrev Settings := Table Settings.Name Json

namespace Settings

def radiansKey : Text := "radians".toList

def debugKey : Text := "debug".toList

def placesKey : Text := "decimal_places".toList

def fractionsKey : Text := "fractions".toList

def copyKey : Text := "copy_to_clipboard".toList

def constantsKey : Text := "constants".toList

def standard : Settings :=
  [(.text radiansKey, .truth false), (.text debugKey, .truth false),
    (.text placesKey, .integer 12), (.text fractionsKey, .truth false),
    (.text copyKey, .truth false), (.text constantsKey, .object [])]

def ofMembers (members : Table CodePoints Json) : Settings := members.map fun m => (.text m.1, m.2)

def toJson (settings : Settings) : Json := .object (settings.map fun s => (s.1.member, s.2))

/-- The two parts of an entry that is given as one value: two items, two characters, or the names
of two members. -/
def pair (position : Nat) (entry : Json) : Except Mishap (Json × Json) :=
  let parts : Option (List Json) := match entry with
    | .array items => some items
    | .text t => some (t.map fun c => .text [c])
    | .object members => some (members.map fun m => .text m.1)
    | _ => none
  match parts with
  | some [name, value] => .ok (name, value)
  | some parts => .error (.notAPair position parts.length)
  | none => .error .wrongSort

/-- Settings with the entries of a list put into them, of which the first has this position. A list
or an object is of the wrong sort for a name. -/
def putEntries (settings : Settings) (position : Nat) : List Json → Except Mishap Settings
  | [] => .ok settings
  | entry :: rest => do
    let (name, value) ← pair position entry
    match Name.ofJson? name with
    | some name => putEntries (settings.put name value) (position + 1) rest
    | none => .error .wrongSort

/-- Settings with a value put over them: an object, or a list of entries. -/
def overlayJson (settings : Settings) : Json → Except Mishap Settings
  | .object members => .ok (settings.overlay (ofMembers members))
  | .array entries => putEntries settings 0 entries
  | .text t => putEntries settings 0 (t.map fun c => .text [c])
  | _ => .error .wrongSort

def value? (settings : Settings) (name : Text) : Option Json := settings.get? (.text name)

def flag (settings : Settings) (name : Text) : Bool := (settings.value? name).any Json.isTrue

/-- The whole number that a text stands for. Too many digits at its start count before anything
that is wrong after them. -/
def wholeText (t : CodePoints) : Except Mishap Int :=
  match Numeral.wholeRow? t.plain with
  | some (negative, digits, rest) =>
    if Numeral.maxDigits < digits.length then .error (.tooManyDigits digits.length)
    else if digits.isEmpty || !rest.isEmpty then .error (.notWhole t)
    else .ok (if negative then -digitsValue digits else digitsValue digits)
  | none => .error (.notWhole t)

/-- The whole number that a value stands for. -/
def wholeNumber : Json → Except Mishap Int
  | .integer n => .ok n
  | .truth b => .ok (if b then 1 else 0)
  | .number x =>
    if x.isNaN then .error .nanAsWhole
    else if x.isInf then .error .infinityAsWhole
    else .ok (Double.truncate x)
  | .text t => wholeText t
  | _ => .error .wrongSort

def constant : Json → Constant
  | .number x => .number x
  | .integer n => .whole n
  | .truth b => .number (if b then 1 else 0)
  | .text t => .text t
  | .null => .unset
  | .array _ | .object _ => .unusable

/-- The built-in constants with those of a value put over them. Only a text of characters can be used as
the name of a constant. -/
def constants (json : Json) : Except Mishap (Table Text Constant) :=
  if json.isTrue then do
    let given ← overlayJson [] json
    return Constant.builtin.overlay <| given.filterMap fun
      | (.text name, value) => name.text?.map fun name => (name, constant value)
      | _ => none
  else .ok Constant.builtin

structure Overrides where
  angles : Option AngleMode
  debug : Option Bool
  places : Option Int
  fractions : Option Bool
  constants : Option Json

def Overrides.none : Overrides := ⟨.none, .none, .none, .none, .none⟩

def places (settings : Settings) : Except Mishap Int :=
  match settings.value? placesKey with
  | none => .ok 12
  | some json => wholeNumber json

def setup (settings : Settings) (overrides : Overrides) : Except Mishap Setup := do
  let places ← settings.places
  let given := overrides.constants <|> settings.value? constantsKey
  let constants ← constants (given.getD .null)
  return {
    angles := overrides.angles.getD (.ofRadiansFlag (settings.flag radiansKey))
    debug := overrides.debug.getD (settings.flag debugKey)
    style := {
      places := overrides.places.getD places
      fractions := overrides.fractions.getD (settings.flag fractionsKey) }
    constants }

end Settings

end Reckoner
