import Reckoner.CommandLine.Variable
import Reckoner.Text.Quoted

set_option autoImplicit false

namespace Reckoner.CommandLine

inductive Switch where
  | help | var | radians | degrees | fractions | check | showEquation | copy | debug | save
deriving DecidableEq, Repr

def spellings : List (Text × Switch) :=
  [("-h".toList, .help), ("--help".toList, .help), ("--var".toList, .var),
    ("--radians".toList, .radians), ("--degrees".toList, .degrees),
    ("--fractions".toList, .fractions), ("--check".toList, .check),
    ("--show-equation".toList, .showEquation), ("--copy".toList, .copy),
    ("--debug".toList, .debug), ("--save".toList, .save)]

def Switch.label (switch : Switch) : String :=
  "/".intercalate ((spellings.filter fun s => s.2 = switch).map fun s => String.ofList s.1)

inductive UsageError where
  | ambiguous (argument : Text) (candidates : List Text)
  | excluded (switch other : Switch)
  | needlessValue (switch : Switch) (value : Text)
  | missingValue (switch : Switch)
  | badVariable (e : VariableError)
  | unrecognized (arguments : List Text)
deriving DecidableEq

namespace UsageError

private def atSwitch (switch : Switch) (what : String) : String :=
  "argument " ++ switch.label ++ ": " ++ what

def message : UsageError → String
  | ambiguous argument candidates =>
    "ambiguous option: " ++ String.ofList argument ++ " could match " ++
      ", ".intercalate (candidates.map String.ofList)
  | excluded switch other => atSwitch switch ("not allowed with argument " ++ other.label)
  | needlessValue switch value =>
    atSwitch switch ("ignored explicit argument " ++ quotedString value)
  | missingValue switch => atSwitch switch "expected one argument"
  | badVariable e => atSwitch .var e.message
  | unrecognized arguments =>
    "unrecognized arguments: " ++ " ".intercalate (arguments.map String.ofList)

end UsageError

/-- An argument told apart. The separator is the two hyphens after which everything is an operand;
what looks like a switch and is none is unknown. -/
inductive Token where
  | operand (t : Text)
  | separator
  | switch (s : Switch) (value : Option Text)
  | unknown (t : Text)
deriving DecidableEq

def separatorText : Text := ['-', '-']

/-- Whether an argument is a negative number, written with digits and at most one point that has
digits behind it; a line end after it does not count. -/
def isNegativeNumber (t : Text) : Bool :=
  match t with
  | '-' :: r =>
    let r := if r.getLast? = some '\n' then r.dropLast else r
    match r.dropWhile isDecimalDigit with
    | [] => !r.isEmpty
    | '.' :: places => !places.isEmpty && places.all isDecimalDigit
    | _ => false
  | _ => false

/-- The value that the short switch for help gets from what stands behind it. The letter can be
repeated; what follows then is a value, and so is an empty text behind an equals sign. -/
def shortHelp (t : Text) : Option Text :=
  if t.isEmpty then some []
  else match t.dropWhile (· == 'h') with
    | [] => none
    | value => some value

/-- The switches that an argument can be short for, with the value it gives them. The short switch
is followed by its value at once. -/
def candidates (t : Text) : List (Text × Switch × Option Text) :=
  match t with
  | '-' :: '-' :: _ =>
    let (name, value) := splitAtEquals t
    (spellings.filter fun s => name.isPrefixOf s.1).map fun s => (s.1, s.2, value)
  | _ =>
    spellings.filterMap fun s =>
      if s.1 = t.take 2 then some (s.1, s.2, shortHelp (t.drop 2))
      else if t.isPrefixOf s.1 then some (s.1, s.2, none)
      else none

def shortHelpName : Text := ['-', 'h']

/-- A switch that is spelled out, perhaps with a value after an equals sign. -/
def spelledOut? (t : Text) : Option Token :=
  let (name, value) := splitAtEquals t
  match spellings.lookup t, spellings.lookup name with
  | some s, _ => some (.switch s none)
  | none, some s => some (.switch s (if name = shortHelpName then value.bind shortHelp else value))
  | none, none => none

/-- What an argument is, when no separator stands before it. -/
def classify (t : Text) : Except UsageError Token :=
  if t = separatorText then .ok .separator
  else if t.head? ≠ some '-' ∨ t = ['-'] then .ok (.operand t)
  else match spelledOut? t with
    | some token => .ok token
    | none => match candidates t with
      | [(_, s, value)] => .ok (.switch s value)
      | [] => .ok (if isNegativeNumber t || t.contains ' ' then .operand t else .unknown t)
      | several => .error (.ambiguous t (several.map fun c => c.1))

def tokens : List Text → Except UsageError (List Token)
  | [] => .ok []
  | t :: rest => do
    let token ← classify t
    if token = .separator then return token :: rest.map .operand
    else return token :: (← tokens rest)

/-- What the command line asks for. Two hyphens given as a variable are dropped, and nothing is left
of it. -/
structure Request where
  expression : Option Text
  assignments : List (Option (Text × Binding))
  radians : Option Bool
  fractions : Bool
  check : Bool
  showEquation : Bool
  copy : Bool
  debug : Bool
  save : Bool

def Request.empty : Request :=
  ⟨none, [], none, false, false, false, false, false, false⟩

inductive Stop where
  | usage (e : UsageError)
  | help
deriving DecidableEq

/-- What the arguments so far have given: the request, whether the place of the expression is taken,
and what had no place. -/
structure Progress where
  request : Request
  taken : Bool
  extras : List Text

namespace Progress

/-- An operand takes the place of the expression, if that is free. -/
def operand (p : Progress) (t : Text) : Progress :=
  if p.taken then { p with extras := p.extras ++ [t] }
  else { p with taken := true, request := { p.request with expression := some t } }

def bind (p : Progress) (t : Text) : Except Stop Progress :=
  let add (v : Option (Text × Binding)) : Progress :=
    { p with request := { p.request with assignments := p.request.assignments ++ [v] } }
  if t = separatorText then .ok (add none)
  else match parseVariable t with
    | .ok v => .ok (add (some v))
    | .error e => .error (.usage (.badVariable e))

/-- A unit of angles is chosen; it must be the same as before. -/
def angles (p : Progress) (radians : Bool) : Except Stop Progress :=
  let switch (radians : Bool) : Switch := if radians then .radians else .degrees
  if p.request.radians = some !radians then
    .error (.usage (.excluded (switch radians) (switch !radians)))
  else .ok { p with request := { p.request with radians := some radians } }

def flag (p : Progress) : Switch → Except Stop Progress
  | .help | .var => .error .help
  | .radians => p.angles true
  | .degrees => p.angles false
  | .fractions => .ok { p with request := { p.request with fractions := true } }
  | .check => .ok { p with request := { p.request with check := true } }
  | .showEquation => .ok { p with request := { p.request with showEquation := true } }
  | .copy => .ok { p with request := { p.request with copy := true } }
  | .debug => .ok { p with request := { p.request with debug := true } }
  | .save => .ok { p with request := { p.request with save := true } }

/-- The arguments from here on. A separator right after the expression goes with it; one before a
free place is passed over. -/
def read (p : Progress) : List Token → Except Stop Progress
  | [] => .ok p
  | .operand t :: .separator :: rest =>
    if p.taken then { p with extras := p.extras ++ [t, separatorText] }.read rest
    else (p.operand t).read rest
  | .operand t :: rest => (p.operand t).read rest
  | .separator :: rest =>
    if p.taken then { p with extras := p.extras ++ [separatorText] }.read rest
    else p.read rest
  | .switch .var (some value) :: rest => do (← p.bind value).read rest
  | .switch .var none :: .operand t :: rest => do (← p.bind t).read rest
  | .switch .var none :: _ => .error (.usage (.missingValue .var))
  | .switch s none :: rest => do (← p.flag s).read rest
  | .switch s (some value) :: _ => .error (.usage (.needlessValue s value))
  | .unknown t :: rest => { p with extras := p.extras ++ [t] }.read rest

end Progress

def parse (arguments : List Text) : Except Stop Request := do
  let tokens ← (tokens arguments).mapError .usage
  let progress ← Progress.read ⟨.empty, false, []⟩ tokens
  if progress.extras.isEmpty then return progress.request
  else throw (.usage (.unrecognized progress.extras))

end Reckoner.CommandLine
