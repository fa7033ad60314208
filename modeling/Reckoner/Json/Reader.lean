import Reckoner.Json.Basic
import Reckoner.Text.Numeral

set_option autoImplicit false

namespace Reckoner.Json

inductive ReadError where
  | malformed
  | tooManyDigits (n : Nat)
deriving DecidableEq

/-- What is there, or else the text is malformed. -/
def orMalformed {α : Type} : Option α → Except ReadError α
  | some a => .ok a
  | none => .error .malformed

def isSpace (c : Char) : Bool := c == ' ' || c == '\t' || c == '\n' || c == '\r'

def skipSpace (t : Text) : Text := t.dropWhile isSpace

def after? (word t : Text) : Option Text :=
  if word.isPrefixOf t then some (t.drop word.length) else none

def hexadecimalDigit? (c : Char) : Option Nat :=
  if c.isDigit then some (c.toNat - '0'.toNat)
  else if 'a' ≤ c ∧ c ≤ 'f' then some (c.toNat - 'a'.toNat + 10)
  else if 'A' ≤ c ∧ c ≤ 'F' then some (c.toNat - 'A'.toNat + 10)
  else none

/-- The number that four hexadecimal digits at the start of a text write; and what follows. -/
def codeUnit? : Text → Option (Nat × Text)
  | a :: b :: c :: d :: r => do
    let a ← hexadecimalDigit? a
    let b ← hexadecimalDigit? b
    let c ← hexadecimalDigit? c
    let d ← hexadecimalDigit? d
    some (((a * 16 + b) * 16 + c) * 16 + d, r)
  | _ => none

/-- The code point that one or two escaped UTF-16 code units stand for, and what follows; the first
unit is read already. -/
def joinUnits (unit : Nat) (t : Text) : CodePoint × Text :=
  match t with
  | '\\' :: 'u' :: r =>
    match codeUnit? r with
    | some (low, rest) =>
      if 0xD800 ≤ unit ∧ unit < 0xDC00 ∧ 0xDC00 ≤ low ∧ low < 0xE000 then
        (.char (Char.ofNat (0x10000 + (unit - 0xD800) * 0x400 + (low - 0xDC00))), rest)
      else (.ofUnit unit, t)
    | none => (.ofUnit unit, t)
  | _ => (.ofUnit unit, t)

/-- The code point that an escape stands for, the backslash being read already; and what follows. -/
def escape? : Text → Option (CodePoint × Text)
  | 'u' :: r => (codeUnit? r).map fun (unit, rest) => joinUnits unit rest
  | c :: r =>
    if c = '"' ∨ c = '\\' ∨ c = '/' then some (.char c, r)
    else if c = 'b' then some (.char '\x08', r)
    else if c = 'f' then some (.char '\x0c', r)
    else if c = 'n' then some (.char '\n', r)
    else if c = 'r' then some (.char '\r', r)
    else if c = 't' then some (.char '\t', r)
    else none
  | [] => none

/-- The text up to the next quote, and what follows that. Every step reads at least one character,
so `fuel` is enough when it exceeds the length. -/
def readText (fuel : Nat) (t : Text) : Option (CodePoints × Text) :=
  match fuel, t with
  | 0, _ | _, [] => none
  | fuel + 1, c :: r =>
    if c = '"' then some ([], r)
    else if c = '\\' then do
      let (c, r) ← escape? r
      let (t, rest) ← readText fuel r
      some (c :: t, rest)
    else if c.toNat < 32 then none
    else do
      let (t, rest) ← readText fuel r
      some (.char c :: t, rest)

def wholeDigits? : Text → Option (Text × Text)
  | '0' :: r => some (['0'], r)
  | t =>
    if startsWith Char.isDigit t then some (t.takeWhile Char.isDigit, t.dropWhile Char.isDigit)
    else none

/-- The places after a point at the start of a text; none if no digit follows the point. -/
def readPlaces : Text → Text × Text
  | '.' :: r =>
    if startsWith Char.isDigit r then (r.takeWhile Char.isDigit, r.dropWhile Char.isDigit)
    else ([], '.' :: r)
  | t => ([], t)

/-- The power of ten at the start of a text, if there is one. -/
def readPower : Text → Option Int × Text
  | c :: r =>
    if c = 'e' ∨ c = 'E' then
      let (negative, digits) := Numeral.splitSign r
      if startsWith Char.isDigit digits then
        let size : Int := digitsValue (digits.takeWhile Char.isDigit)
        (some (if negative then -size else size), digits.dropWhile Char.isDigit)
      else (none, c :: r)
    else (none, c :: r)
  | [] => (none, [])

/-- The number at the start of a text. It is a whole number unless it has a point or a power, and
only then the number of its digits is bounded. -/
def readNumber (t : Text) : Except ReadError (Json × Text) := do
  let (negative, r) := match t with
    | '-' :: r => (true, r)
    | r => (false, r)
  let (digits, r) ← orMalformed (wholeDigits? r)
  let (places, r) := readPlaces r
  let (power, r) := readPower r
  if places.isEmpty && power.isNone then
    if Numeral.maxDigits < digits.length then throw (.tooManyDigits digits.length)
    let size : Int := digitsValue digits
    return (integer (if negative then -size else size), r)
  else
    let d : Decimal := ⟨digitsValue (digits ++ places), power.getD 0 - places.length⟩
    return (number (Numeral.signed negative d), r)

/-- The values that are written by a name. -/
def names : List (Text × Json) :=
  [("null".toList, null), ("true".toList, truth true), ("false".toList, truth false),
    ("NaN".toList, number Double.nan), ("Infinity".toList, number (Double.infinity false)),
    ("-Infinity".toList, number (Double.infinity true))]

/-- The value at the start of a text that is written by a name or is a number; and what follows. -/
def readScalar (t : Text) : Except ReadError (Json × Text) :=
  let named := names.findSome? fun (name, value) => (after? name t).map fun rest => (value, rest)
  match named with
  | some found => .ok found
  | none => readNumber t

mutual

/-- The value at the start of a text, and what follows it. Every call reads at least one character
or ends, so `fuel` is enough when it exceeds twice the length. -/
def readValue (fuel : Nat) (t : Text) : Except ReadError (Json × Text) :=
  match fuel with
  | 0 => throw .malformed
  | fuel + 1 =>
    match t with
    | '"' :: r => do
      let (t, rest) ← orMalformed (readText (r.length + 1) r)
      return (text t, rest)
    | '[' :: r =>
      match skipSpace r with
      | ']' :: rest => return (array [], rest)
      | r => do
        let (items, rest) ← readItems fuel r
        return (array items, rest)
    | '{' :: r =>
      match skipSpace r with
      | '}' :: rest => return (object [], rest)
      | r => do
        let (members, rest) ← readMembers fuel [] r
        return (object members, rest)
    | t => readScalar t

/-- The items up to the closing bracket, of which there is at least one. -/
def readItems (fuel : Nat) (t : Text) : Except ReadError (List Json × Text) :=
  match fuel with
  | 0 => throw .malformed
  | fuel + 1 => do
    let (item, r) ← readValue fuel t
    match skipSpace r with
    | ']' :: rest => return ([item], rest)
    | ',' :: r =>
      let (items, rest) ← readItems fuel (skipSpace r)
      return (item :: items, rest)
    | _ => throw .malformed

/-- The members up to the closing brace, of which there is at least one, put after those read
before. -/
def readMembers (fuel : Nat) (before : Table CodePoints Json) (t : Text) :
    Except ReadError (Table CodePoints Json × Text) :=
  match fuel, t with
  | fuel + 1, '"' :: r => do
    let (name, r) ← orMalformed (readText (r.length + 1) r)
    match skipSpace r with
    | ':' :: r =>
      let (value, r) ← readValue fuel (skipSpace r)
      let members := before.put name value
      match skipSpace r with
      | '}' :: rest => return (members, rest)
      | ',' :: r => readMembers fuel members (skipSpace r)
      | _ => throw .malformed
    | _ => throw .malformed
  | _, _ => throw .malformed

end

/-- The value that a text writes, with nothing but white space around it. -/
def read (t : Text) : Except ReadError Json := do
  let (json, rest) ← readValue (2 * t.length + 1) (skipSpace t)
  if (skipSpace rest).isEmpty then return json else throw .malformed

end Reckoner.Json
