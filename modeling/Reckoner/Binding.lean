import Reckoner.Table
import Reckoner.Text.Numeral

set_option autoImplicit false

namespace Reckoner

/-- What a variable stands for: a number, NaN with its sign bit set, or nothing where it is only named. -/
inductive Binding where
  | unset
  | number (x : Float)
  | negatedNaN
deriving DecidableEq

abbrev Bindings := Table Text Binding

namespace Binding

def value? : Binding → Option Float
  | unset => none
  | number x => some x
  | negatedNaN => some Double.nan

def ofText? (t : Text) : Option Binding :=
  (Numeral.number? t).map fun x =>
    if x.isNaN && (Numeral.splitSign (trimNumeral t)).1 then negatedNaN else number x

end Binding

end Reckoner
