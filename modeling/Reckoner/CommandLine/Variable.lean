import Reckoner.Binding

set_option autoImplicit false

namespace Reckoner.CommandLine

/-- Why a text gives no variable: nothing stands before an `=`, or no number behind it. -/
inductive VariableError where
  | noName (t : Text)
  | notANumber (name value : Text)
deriving DecidableEq

def VariableError.message : VariableError → String
  | noName t => s!"Expected NAME=VALUE, got '{String.ofList t}'"
  | notANumber name value =>
    s!"Value of '{String.ofList name}' is not a number: '{String.ofList value}'"

/-- A text up to its first `=`, and what follows that, if there is one. -/
def splitAtEquals (t : Text) : Text × Option Text :=
  match t.dropWhile (· != '=') with
  | [] => (t, none)
  | _ :: value => (t.takeWhile (· != '='), some value)

/-- The name and the value of a variable. White space around both is passed over. -/
def parseVariable (t : Text) : Except VariableError (Text × Binding) :=
  match splitAtEquals t with
  | (name, some value) =>
    let name := trimLine name
    if name.isEmpty then .error (.noName t)
    else match Binding.ofText? value with
      | some binding => .ok (name, binding)
      | none => .error (.notANumber name value)
  | (_, none) => .error (.noName t)

end Reckoner.CommandLine
