import Reckoner.Expression.Constants
import Reckoner.Expression.Scientific
import Reckoner.Expression.Signs
import Reckoner.Expression.Glyphs
import Reckoner.Expression.Products
import Reckoner.Traced

set_option autoImplicit false

/- The canonical form of an expression, in which it is checked and evaluated. It is reached in six
steps, each on the text that the one before it leaves. -/
namespace Reckoner

/-- The text without spaces. Other white space stays. -/
def removeSpaces (t : Text) : Text := t.filter (· != ' ')

/-- The canonical form of an expression. There is none when a constant that the expression names
has no numeric value. -/
def canonical (constants : Table Text Constant) (raw : Text) : Traced Mishap Text := do
  Traced.emit (.given raw)
  let t ← Traced.ofExcept (replaceConstants constants raw)
  Traced.emit (.constantsReplaced t)
  let t := removeSpaces t
  Traced.emit (.spacesRemoved t)
  let t := expandScientific t
  Traced.emit (.numeralsExpanded t)
  let t := reduceSigns t
  Traced.emit (.signsReduced t)
  let t := replaceGlyphs t
  Traced.emit (.glyphsReplaced t)
  let t := markProducts t
  Traced.emit (.productsMarked t)
  return t

/-- The steps after the first one, on a text whose constants are replaced. -/
def canonicalOfNamed (t : Text) : Text :=
  markProducts (replaceGlyphs (reduceSigns (expandScientific (removeSpaces t))))

theorem canonical_outcome (constants : Table Text Constant) (raw : Text) :
    (canonical constants raw).outcome =
      (replaceConstants constants raw).map canonicalOfNamed := by
  simp only [canonical, Traced.emit, Traced.ofExcept]
  cases replaceConstants constants raw <;> rfl

end Reckoner
