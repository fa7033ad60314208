import Reckoner.Function.Basic
import Reckoner.Fault.Report

set_option autoImplicit false

namespace Reckoner

/-- What is wrong with an expression or its values. -/
inductive Fault where
  | empty
  | unopened (position : Nat)
  | unclosed (depth : Nat)
  | hollow (position : Nat)
  | leadingOperator (operator : Char)
  | trailingOperator (operator : Char) (position : Nat)
  | badBefore (operator neighbor : Char) (position : Nat)
  | badAfter (operator neighbor : Char) (position : Nat)
  | leadingPoint
  | trailingPoint (position : Nat)
  | strayPoint (position : Nat)
  | secondPoint (position : Nat)
  | strayChar (char : Char) (position : Nat)
  | unknownFunction (name : Text)
  | missingArgument (name : Text)
  | unknownVariable (operand name : Text)
  | zeroToZero (base exponent : Float)
  | zeroToNegative (base exponent : Float)
  | negativeToFraction (base exponent : Float)
  | zeroIndex (index radicand : Float)
  | zeroRadicand (index radicand : Float)
  | negativeRadicand (index radicand : Float)
  | factorialArgument (argument : Float)
  | fractionArgument (argument : Float)
  | inverseArgument (name : Text) (argument : Float)
  | logarithmArgument (name : Text) (argument : Float)
  | undefinedCall (name : Text) (argument : Float)
  | undefinedOperation (operator : Char) (left right : Float)
  | overflow (reason : String)
  | unknownOperator (operator : Text)
  | unexpected (reason : String)
  | unsavable (path : Text) (reason : String)
deriving DecidableEq

namespace Fault

def kind : Fault → Kind
  | empty | unopened _ | unclosed _ | hollow _ => .parenthesis
  | leadingOperator _ | trailingOperator .. | badBefore .. | badAfter .. => .operator
  | leadingPoint | trailingPoint _ | strayPoint _ | secondPoint _ => .decimalPoint
  | strayChar .. => .invalidChar
  | unknownFunction _ => .unknownFunction
  | missingArgument _ => .missingArgument
  | unknownVariable .. => .unknownVariable
  | zeroToZero .. | zeroToNegative .. | negativeToFraction .. | zeroIndex .. | zeroRadicand ..
  | negativeRadicand .. | factorialArgument _ | fractionArgument _ | inverseArgument ..
  | logarithmArgument .. => .domain
  | undefinedCall .. | undefinedOperation .. | overflow _ => .indeterminate
  | unknownOperator _ | unexpected _ => .unexpected
  | unsavable .. => .configuration

/-- The sentence that tells what happened. -/
def detail : Fault → String
  | empty => "The expression is empty."
  | unopened _ => "A parenthesis was closed before being opened."
  | unclosed _ => "One or more parentheses have not been closed."
  | hollow _ => "One or more parentheses have no content."
  | leadingOperator operator => s!"The expression can't start with the operator '{operator}'."
  | trailingOperator operator _ => s!"The expression can't end with the operator '{operator}'."
  | badBefore operator neighbor _ =>
    s!"Invalid character '{neighbor}' before the operator '{operator}'."
  | badAfter operator neighbor _ =>
    s!"Invalid character '{neighbor}' after the operator '{operator}'."
  | leadingPoint => "Unexpected decimal point at the start of the expression."
  | trailingPoint _ => "Unexpected decimal point at the end of the expression."
  | strayPoint _ => "Unexpected decimal point."
  | secondPoint _ => "More than one decimal point in one value."
  | strayChar char _ => s!"Invalid character '{char}'."
  | unknownFunction name => s!"Function '{String.ofList name}' is not recognized."
  | missingArgument name => s!"No value was given for the function '{String.ofList name}'."
  | unknownVariable operand _ => s!"Variable '{String.ofList operand}' is not recognized."
  | zeroToZero .. => "A power with zero base and zero exponent can't be solved."
  | zeroToNegative .. => "A power with zero base can only have a positive exponent."
  | negativeToFraction .. => "A power with negative base and decimal exponent can't be solved."
  | zeroIndex .. => "The index of a root can't be zero."
  | zeroRadicand .. => "A root of zero can only have a positive index."
  | negativeRadicand .. => "The root of a negative number can't be solved for this index."
  | factorialArgument _ => "The function 'fact' can't solve a negative or decimal value."
  | fractionArgument _ => "Only finite values can be converted into a fraction."
  | inverseArgument name argument =>
    s!"Invalid argument for function '{String.ofList name}': {Double.plainString argument}"
  | logarithmArgument name _ =>
    s!"The function '{String.ofList name}' can't solve a negative value or zero."
  | undefinedCall .. | undefinedOperation .. => Kind.headline .indeterminate
  | overflow reason => s!"Number too large ({reason})."
  | unknownOperator operator => s!"Unknown operator: {String.ofList operator}"
  | unexpected reason => s!"Unexpected Error: {reason}"
  | unsavable path reason => s!"Not all settings could be saved: {String.ofList path} ({reason})"

def atOperator (operator : Char) (neighbor : Option Char) (position : Nat) :
    List (String × Datum) :=
  [("char", .text [operator]), ("neighbor", neighbor.elim .absent fun c => .text [c]),
    ("position", .integer position)]

def atArgument (name : Text) (argument : Float) : List (String × Datum) :=
  [("function", .text name), ("argument", .number argument)]

def atPower (base exponent : Float) : List (String × Datum) :=
  [("operator", .text ['^']), ("base", .number base), ("exponent", .number exponent)]

def atRoot (index radicand : Float) : List (String × Datum) :=
  [("operator", .text [rootMark]), ("index", .number index), ("radicand", .number radicand)]

def fields : Fault → List (String × Datum)
  | empty => [("reason", .text "empty".toList)]
  | unopened position => [("reason", .text "unopened".toList), ("position", .integer position)]
  | unclosed depth => [("reason", .text "unclosed".toList), ("depth", .integer depth)]
  | hollow position => [("reason", .text "empty".toList), ("position", .integer position)]
  | leadingOperator operator => atOperator operator none 0
  | trailingOperator operator position => atOperator operator none position
  | badBefore operator neighbor position => atOperator operator neighbor position
  | badAfter operator neighbor position => atOperator operator neighbor position
  | leadingPoint => [("position", .integer 0)]
  | trailingPoint position | strayPoint position | secondPoint position =>
    [("position", .integer position)]
  | strayChar char position => [("char", .text [char]), ("position", .integer position)]
  | unknownFunction name | missingArgument name => [("function", .text name)]
  | unknownVariable _ name => [("variable", .text name)]
  | zeroToZero base exponent | zeroToNegative base exponent | negativeToFraction base exponent =>
    atPower base exponent
  | zeroIndex index radicand | zeroRadicand index radicand | negativeRadicand index radicand =>
    atRoot index radicand
  | factorialArgument argument => atArgument Function.fact.name argument
  | fractionArgument argument => atArgument "fractionate".toList argument
  | inverseArgument name argument | logarithmArgument name argument
  | undefinedCall name argument => atArgument name argument
  | undefinedOperation operator left right =>
    [("operator", .text [operator]), ("left", .number left), ("right", .number right)]
  | overflow _ | unexpected _ => []
  | unknownOperator operator => [("operator", .text operator)]
  | unsavable path _ => [("path", .text path)]

def report (f : Fault) (equation : Option Text) : Report :=
  ⟨f.kind, f.detail, f.kind.code, equation, f.fields⟩

end Fault

end Reckoner
