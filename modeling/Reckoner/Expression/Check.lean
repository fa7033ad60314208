import Reckoner.Fault.Basic
import Reckoner.Traced

set_option autoImplicit false

namespace Reckoner

/-- The position of the first pair of parentheses without content. -/
def hollow? (position : Nat) : Text → Option Nat
  | c :: d :: r => if c == '(' && d == ')' then some position else hollow? (position + 1) (d :: r)
  | _ => none

def openAtEnd (position depth : Nat) : Text → Except Fault Nat
  | [] => .ok depth
  | '(' :: r => openAtEnd (position + 1) (depth + 1) r
  | ')' :: r => match depth with
    | 0 => .error (.unopened position)
    | depth + 1 => openAtEnd (position + 1) depth r
  | _ :: r => openAtEnd (position + 1) depth r

def checkParentheses (t : Text) : Except Fault Unit :=
  if t.isEmpty then .error .empty
  else do
    match ← openAtEnd 0 0 t with
    | 0 => match hollow? 0 t with
      | some position => .error (.hollow position)
      | none => .ok ()
    | depth + 1 => .error (.unclosed (depth + 1))

def isAlphanumeric (c : Char) : Bool := c.isDigit || c.isAlpha

/-- What can stand before a sign inside an expression. -/
def fitsBeforeSign (c : Char) : Bool :=
  isOperator c || c == '(' || c == ')' || isAlphanumeric c

/-- What can stand after a sign. -/
def fitsAfterSign (c : Char) : Bool := c == '(' || isAlphanumeric c

def fitsBeforeBinary (c : Char) : Bool := c == ')' || isAlphanumeric c

def fitsAfterBinary (c : Char) : Bool := isSign c || c == '(' || isAlphanumeric c

/-- The neighbours of a character, if it is an operator, are such as the two classes demand. -/
def checkNeighbors (before after : Char → Bool) (previous c next : Char) (position : Nat) :
    Except Fault Unit :=
  if !before previous then .error (.badBefore c previous position)
  else if !after next then .error (.badAfter c next position)
  else .ok ()

/-- A character that is neither the first nor the last has neighbours that fit. -/
def checkInner (previous c next : Char) (position : Nat) : Except Fault Unit :=
  if isSign c then checkNeighbors fitsBeforeSign fitsAfterSign previous c next position
  else if isBinaryOnly c then
    checkNeighbors fitsBeforeBinary fitsAfterBinary previous c next position
  else .ok ()

/-- A check of every character that has two neighbours, from the left; `position` is that of the
first one of them. -/
def checkTriples (check : Char → Char → Char → Nat → Except Fault Unit) (position : Nat) :
    Text → Except Fault Unit
  | previous :: c :: next :: r => do
    check previous c next position
    checkTriples check (position + 1) (c :: next :: r)
  | _ => .ok ()

def checkOperators (t : Text) : Except Fault Unit := do
  if let some c := t.head? then
    if isBinaryOnly c then throw (.leadingOperator c)
  if let some c := t.getLast? then
    if isOperator c then throw (.trailingOperator c (t.length - 1))
  checkTriples checkInner 1 t

def checkPoint (previous c next : Char) (position : Nat) : Except Fault Unit :=
  if c == '.' && !(previous.isDigit && next.isDigit) then .error (.strayPoint position)
  else .ok ()

/-- No value has a second point; `seen` tells whether the value at the start of the text has one
before it. Only an operator ends a value. -/
def checkSinglePoint (seen : Bool) (position : Nat) : Text → Except Fault Unit
  | [] => .ok ()
  | c :: r =>
    if seen && c == '.' then .error (.secondPoint position)
    else
      checkSinglePoint (if seen then !isOperator c else c == '.') (position + 1) r

def checkPoints (t : Text) : Except Fault Unit := do
  if t.head? == some '.' then throw .leadingPoint
  if t.getLast? == some '.' then throw (.trailingPoint (t.length - 1))
  checkTriples checkPoint 1 t
  checkSinglePoint false 0 t

def isCanonicalChar (c : Char) : Bool :=
  c == '.' || c == '(' || c == ')' || isAlphanumeric c || isOperator c

def checkCharacters (position : Nat) : Text → Except Fault Unit
  | [] => .ok ()
  | c :: r =>
    if isCanonicalChar c then checkCharacters (position + 1) r
    else .error (.strayChar c position)

def check (t : Text) : Traced Fault Unit := do
  Traced.emit .checkStarted
  Traced.ofExcept (checkParentheses t)
  Traced.emit .parenthesesChecked
  Traced.ofExcept (checkOperators t)
  Traced.emit .operatorsChecked
  Traced.ofExcept (checkPoints t)
  Traced.emit .pointsChecked
  Traced.ofExcept (checkCharacters 0 t)
  Traced.emit .charactersChecked

end Reckoner
