set_option autoImplicit false

namespace Reckoner.Fault

inductive Kind where
  | parenthesis
  | operator
  | decimalPoint
  | invalidChar
  | unknownFunction
  | missingArgument
  | domain
  | unknownVariable
  | indeterminate
  | configuration
  | unexpected
deriving DecidableEq, Repr

inductive Family where
  | syntactic
  | execution
  | other
deriving DecidableEq, Repr

namespace Kind

def all : List Kind :=
  [parenthesis, operator, decimalPoint, invalidChar, unknownFunction, missingArgument, domain,
    unknownVariable, indeterminate, configuration, unexpected]

def name : Kind → String
  | parenthesis => "ParenthesisError"
  | operator => "OperatorError"
  | decimalPoint => "DecimalSyntaxError"
  | invalidChar => "InvalidCharError"
  | unknownFunction => "UnknownFunctionError"
  | missingArgument => "MissingArgumentError"
  | domain => "DomainError"
  | unknownVariable => "UnknownVariableError"
  | indeterminate => "IndeterminateResultError"
  | configuration => "ConfigurationError"
  | unexpected => "UnexpectedError"

def label : Kind → String
  | parenthesis => "PARENTHESIS"
  | operator => "OPERATOR"
  | decimalPoint => "DECIMAL_SYNTAX"
  | invalidChar => "INVALID_CHAR"
  | unknownFunction => "UNKNOWN_FUNCTION"
  | missingArgument => "MISSING_ARGUMENT"
  | domain => "DOMAIN"
  | unknownVariable => "UNKNOWN_VARIABLE"
  | indeterminate => "INDETERMINATE_RESULT"
  | configuration => "CONFIGURATION"
  | unexpected => "UNEXPECTED"

/-- The code of a fault of this kind, unless the fault has one of its own. -/
def code : Kind → String
  | parenthesis => "3000"
  | operator => "3001"
  | decimalPoint => "3002"
  | invalidChar => "3003"
  | unknownFunction => "3100"
  | missingArgument => "3101"
  | domain => "3102"
  | unknownVariable => "3103"
  | indeterminate => "3104"
  | configuration => "5000"
  | unexpected => "9999"

def headline : Kind → String
  | parenthesis => "Parenthesis error: "
  | operator => "Operator error: "
  | decimalPoint => "Decimal point error: "
  | invalidChar => "Invalid character: "
  | unknownFunction => "Unknown function: "
  | missingArgument => "Missing argument for function: "
  | domain => "Invalid argument: "
  | unknownVariable => "Unknown variable: "
  | indeterminate => "Undefined result."
  | configuration => "Configuration could not be saved: "
  | unexpected => "Unexpected Error: "

def family : Kind → Family
  | parenthesis | operator | decimalPoint | invalidChar => .syntactic
  | unknownFunction | missingArgument | domain | unknownVariable | indeterminate => .execution
  | configuration | unexpected => .other

def ofName? (s : String) : Option Kind := all.find? fun k => k.name == s

/-- The kind whose code this is; every other code counts as unexpected. -/
def ofCode (s : String) : Kind := (all.find? fun k => k.code == s).getD unexpected

theorem ofName?_name (k : Kind) : ofName? k.name = some k := by cases k <;> decide

theorem ofCode_code (k : Kind) : ofCode k.code = k := by cases k <;> decide

end Kind

def category (code : String) : String :=
  match code.toList with
  | '3' :: _ => "Calculator Error"
  | '5' :: _ => "Configuration Error"
  | _ => "Runtime Error"

def describe (code : String) : String := category code ++ ": " ++ (Kind.ofCode code).headline

end Reckoner.Fault
