import Reckoner.Decimal.Layout
import Reckoner.Fault.Mishap
import Reckoner.Json.Basic

set_option autoImplicit false

/- Writing JSON piece by piece, as far as it goes: a text with half of a surrogate pair cannot be written,
nor a whole number with too many digits. Then what was written before stands, and nothing follows.
`indented` gives every member and item a line of its own, indented by four spaces for each level;
`compact` puts everything on one line. -/
namespace Reckoner.Json

/-- What has been written, and why no more can be, if that is so. -/
structure Output where
  text : Text
  mishap : Option Mishap

namespace Output

def plain (t : Text) : Output := ⟨t, none⟩

def fail (m : Mishap) : Output := ⟨[], some m⟩

/-- Nothing is written behind a mishap. -/
instance : Append Output where
  append a b := match a.mishap with
    | none => ⟨a.text ++ b.text, b.mishap⟩
    | some _ => a

/-- All of a text, or nothing of it if half of a surrogate pair is in it. -/
def ofPoints (t : CodePoints) : Output :=
  match t.dropWhile (!·.isHalf) with
  | .half first :: r =>
    fail (.halves first (t.takeWhile (!·.isHalf)).length ((r.takeWhile (·.isHalf)).length + 1))
  | _ => plain t.plain

/-- A text and a whole number behind it, if that has not too many digits. -/
def whole (lead : Text) (n : Int) : Output :=
  if Numeral.maxDigits < (Nat.toDigits 10 n.natAbs).length then fail .tooLongToWrite
  else plain (lead ++ (toString n).toList)

end Output

/-- A character inside quotes. Only quotes, backslashes and the ASCII controls are escaped. -/
def writtenChar (c : Char) : Text :=
  if c = '"' ∨ c = '\\' then ['\\', c]
  else if c = '\n' then ['\\', 'n']
  else if c = '\r' then ['\\', 'r']
  else if c = '\t' then ['\\', 't']
  else if c.toNat = 8 then ['\\', 'b']
  else if c.toNat = 12 then ['\\', 'f']
  else if c.toNat < 32 then '\\' :: 'u' :: hexadecimal 4 c.toNat
  else [c]

def writtenPoint : CodePoint → CodePoints
  | .char c => writtenChar c
  | .half n => [.half n]

def writtenText (t : CodePoints) : CodePoints := .char '"' :: t.flatMap writtenPoint ++ [.char '"']

/-- A double. What is not finite is written by its name. -/
def writtenNumber (x : Float) : Text :=
  if x.isNaN then ['N', 'a', 'N']
  else if x.isInf then Double.signText (Double.isNegative x) ++ Double.infinityName
  else Double.shown x

/-- What begins a line at a level, and what stands between the name and the value of a member. -/
structure Style where
  newline : Nat → Text
  colon : Text

def Style.compact : Style := ⟨fun _ => [], [':']⟩

/-- A line for each item and member, indented by four spaces for each level. -/
def Style.indented : Style := ⟨fun level => '\n' :: List.replicate (4 * level) ' ', [':', ' ']⟩

mutual

/-- A value that stands at this level. What is behind `lead` goes with it in one piece, unless it has
parts itself. -/
def write (style : Style) (level : Nat) (lead : Text) : Json → Output
  | null => .plain (lead ++ ['n', 'u', 'l', 'l'])
  | truth true => .plain (lead ++ ['t', 'r', 'u', 'e'])
  | truth false => .plain (lead ++ ['f', 'a', 'l', 's', 'e'])
  | integer n => .whole lead n
  | number x => .plain (lead ++ writtenNumber x)
  | text t => .ofPoints (lead ++ writtenText t)
  | array [] => .plain (lead ++ ['[', ']'])
  | array (item :: items) =>
    .plain lead ++ write style (level + 1) ('[' :: style.newline (level + 1)) item ++
      writeItems style (level + 1) items ++ .plain (style.newline level ++ [']'])
  | object [] => .plain (lead ++ ['{', '}'])
  | object ((name, value) :: members) =>
    .plain (lead ++ '{' :: style.newline (level + 1)) ++ .ofPoints (writtenText name) ++
      .plain style.colon ++ write style (level + 1) [] value ++
      writeMembers style (level + 1) members ++ .plain (style.newline level ++ ['}'])

def writeItems (style : Style) (level : Nat) : List Json → Output
  | [] => .plain []
  | item :: items =>
    write style level (',' :: style.newline level) item ++ writeItems style level items

def writeMembers (style : Style) (level : Nat) : List (CodePoints × Json) → Output
  | [] => .plain []
  | (name, value) :: members =>
    .plain (',' :: style.newline level) ++ .ofPoints (writtenText name) ++ .plain style.colon ++
      write style level [] value ++ writeMembers style level members

end

def written (json : Json) : Output := write .indented 0 [] json

def compact (json : Json) : Output := write .compact 0 [] json

end Reckoner.Json
