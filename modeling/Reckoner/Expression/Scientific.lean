import Reckoner.Text.Numeral

set_option autoImplicit false

namespace Reckoner

def continuesDigits (first c : Char) : Bool := isDecimalDigit first && isDecimalDigit c

/-- The text with every numeral that has an exponent written out. A row of digits that is the whole
part of no such numeral is passed over at once, since none begins further on in it either. -/
def expandScientific : Text → Text
  | [] => []
  | c :: r =>
    match _found : Numeral.scientific? (c :: r) with
    | some (d, rest) => Double.plain (Numeral.signed false d) ++ expandScientific rest
    | none =>
      c :: (r.takeWhile (continuesDigits c) ++ expandScientific (r.dropWhile (continuesDigits c)))
termination_by t => t.length
decreasing_by
  · exact Numeral.length_scientific? _found
  · exact Nat.lt_succ_of_le (length_dropWhile_le _ _)

end Reckoner
