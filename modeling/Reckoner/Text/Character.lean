set_option autoImplicit false

namespace Reckoner

/-- The characters of an expression, from left to right. -/
abbrev Text := List Char

/-- What is asked of every character of a text is decided by going along the text, also where all
characters there are could be tried. -/
instance (priority := high) decidableForallMem (p : Char → Prop) [DecidablePred p] (t : Text) :
    Decidable (∀ c ∈ t, p c) := List.decidableBAll p t

/-- The operator that stands between the index of a root and its radicand. -/
def rootMark : Char := '˅'

def openMark : Char := '{'

def closeMark : Char := '}'

def isSign (c : Char) : Bool := c == '+' || c == '-'

def isBinaryOnly (c : Char) : Bool := c == '*' || c == '/' || c == '^' || c == rootMark

def isOperator (c : Char) : Bool := isSign c || isBinaryOnly c

/-- The characters of numbers and names: ASCII digits, the point and ASCII letters. -/
def isOperandChar (c : Char) : Bool := c.isDigit || c == '.' || c.isAlpha

def isConstantChar (c : Char) : Bool := c.isAlpha || c == 'π' || c == '∞'

/-- An intermediate value without its marks. -/
def stripMarks (t : Text) : Text := t.filter fun c => !(c == openMark || c == closeMark)

def startsWith (p : Char → Bool) (t : Text) : Bool := t.head?.any p

def splitOne (p : Char → Bool) : Text → Text × Text
  | [] => ([], [])
  | c :: r => if p c then ([c], r) else ([], c :: r)

@[simp] theorem splitOne_append (p : Char → Bool) (t : Text) :
    (splitOne p t).1 ++ (splitOne p t).2 = t := by
  cases t with
  | nil => rfl
  | cons c r => by_cases h : p c <;> simp [splitOne, h]

theorem length_dropWhile_le (p : Char → Bool) (t : Text) : (t.dropWhile p).length ≤ t.length :=
  (List.dropWhile_sublist p).length_le

end Reckoner
