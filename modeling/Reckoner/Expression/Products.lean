import Reckoner.Text.Character

set_option autoImplicit false

namespace Reckoner

/-- The text with a `*` between all neighbours that the relation holds of. -/
def insertBetween (apart : Char → Char → Bool) : Text → Text
  | c :: d :: r =>
    if apart c d then c :: '*' :: insertBetween apart (d :: r)
    else c :: insertBetween apart (d :: r)
  | t => t

/-- A group before a group. -/
def isGroupPair (c d : Char) : Bool := c == ')' && d == '('

/-- A number before a group or a name. -/
def isNumberFirst (c d : Char) : Bool := c.isDigit && (d == '(' || d.isAlpha)

/-- A group before a number. -/
def isNumberLast (c d : Char) : Bool := c == ')' && d.isDigit

def markProducts (t : Text) : Text :=
  insertBetween isNumberLast (insertBetween isNumberFirst (insertBetween isGroupPair t))

end Reckoner
