import Reckoner.Text.Character

set_option autoImplicit false

namespace Reckoner

def isRootGlyph (c : Char) : Bool := c == '√' || c == '∛' || c == '∜'

theorem isRootGlyph_iff {c : Char} : isRootGlyph c = true ↔ c = '√' ∨ c = '∛' ∨ c = '∜' := by
  simp only [isRootGlyph, Bool.or_eq_true, beq_iff_eq, or_assoc]

/-- The mark that makes the operand before a root sign its index. -/
def indexMark : Char := '˟'

def isRaisedDigit (c : Char) : Bool := c == '²' || c == '³'

/-- The text with every marked square root sign replaced by the root operator, except before
another root sign or mark. -/
def replaceIndexed : Text → Text
  | c :: d :: r =>
    if c == indexMark && d == '√' && !startsWith (fun c => isRootGlyph c || c == indexMark) r then
      rootMark :: replaceIndexed r
    else c :: replaceIndexed (d :: r)
  | t => t

/-- The text with every `glyph` replaced, except before a character of its family. -/
def replaceGlyph (glyph : Char) (family : Char → Bool) (replacement : Text) : Text → Text
  | [] => []
  | c :: r =>
    if c == glyph && !startsWith family r then
      replacement ++ replaceGlyph glyph family replacement r
    else c :: replaceGlyph glyph family replacement r

/-- The notation of inverse functions: `sin{-1}` is `asin`, and so on. -/
def replaceInverse : Text → Text
  | 's' :: 'i' :: 'n' :: '{' :: '-' :: '1' :: '}' :: r =>
    'a' :: 's' :: 'i' :: 'n' :: replaceInverse r
  | 'c' :: 'o' :: 's' :: '{' :: '-' :: '1' :: '}' :: r =>
    'a' :: 'c' :: 'o' :: 's' :: replaceInverse r
  | 't' :: 'a' :: 'n' :: '{' :: '-' :: '1' :: '}' :: r =>
    'a' :: 't' :: 'a' :: 'n' :: replaceInverse r
  | c :: r => c :: replaceInverse r
  | [] => []

/-- The text with roots, raised digits and inverse functions in the notation of operators. -/
def replaceGlyphs (t : Text) : Text :=
  let t := replaceIndexed t
  let t := replaceGlyph '√' isRootGlyph ['(', '2', ')', rootMark] t
  let t := replaceGlyph '∛' isRootGlyph ['(', '3', ')', rootMark] t
  let t := replaceGlyph '∜' isRootGlyph ['(', '4', ')', rootMark] t
  let t := replaceGlyph '²' isRaisedDigit ['^', '(', '2', ')'] t
  let t := replaceGlyph '³' isRaisedDigit ['^', '(', '3', ')'] t
  replaceInverse t

end Reckoner
