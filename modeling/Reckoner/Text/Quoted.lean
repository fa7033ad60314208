import Reckoner.Text.Blank
import Reckoner.Text.CodePoint
import Reckoner.Text.Hidden

set_option autoImplicit false

namespace Reckoner

def hexadecimal (width n : Nat) : Text :=
  let digits := Nat.toDigits 16 n
  List.replicate (width - digits.length) '0' ++ digits

/-- One character inside quotes: the quote itself and the backslash follow a backslash, three
controls have letters, other hidden characters are given by two, four or eight hexadecimal
digits. -/
def quotedChar (quote c : Char) : Text :=
  if c = quote ∨ c = '\\' then ['\\', c]
  else if c = '\n' then ['\\', 'n']
  else if c = '\r' then ['\\', 'r']
  else if c = '\t' then ['\\', 't']
  else if inRanges hiddenRanges c.toNat then
    if c.toNat < 0x100 then '\\' :: 'x' :: hexadecimal 2 c.toNat
    else if c.toNat < 0x10000 then '\\' :: 'u' :: hexadecimal 4 c.toNat
    else '\\' :: 'U' :: hexadecimal 8 c.toNat
  else [c]

def quotedPoint (quote : Char) : CodePoint → Text
  | .char c => quotedChar quote c
  | .half n => '\\' :: 'u' :: hexadecimal 4 (0xD800 + n.val)

def quoted (t : CodePoints) : Text :=
  let quote := if t.contains (.char '\'') && !t.contains (.char '"') then '"' else '\''
  quote :: t.flatMap (quotedPoint quote) ++ [quote]

def quotedString (t : CodePoints) : String := .ofList (quoted t)

end Reckoner
