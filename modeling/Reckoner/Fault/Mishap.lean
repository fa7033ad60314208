import Reckoner.Text.Numeral
import Reckoner.Text.Quoted
import Reckoner.Fault.Basic

set_option autoImplicit false

/- Mishaps: values that cannot be converted. They are no faults of an expression; where one occurs
during an evaluation, the evaluation reports it as overflow or as unexpected. -/
namespace Reckoner

/-- A conversion that has no result. Halves of surrogate pairs in a row are told by their position,
their number and the first of them. -/
inductive Mishap where
  | notANumber (t : CodePoints)
  | notWhole (t : CodePoints)
  | tooManyDigits (n : Nat)
  | tooLongToWrite
  | halves (first : Fin 0x800) (position count : Nat)
  | notAPair (position size : Nat)
  | nanAsRatio
  | infinityAsRatio
  | nanAsWhole
  | infinityAsWhole
  | wholeTooLarge
  | quotientTooLarge
  | roundedTooLarge
  | wrongSort
deriving DecidableEq

namespace Mishap

inductive Category where
  | value
  | encoding
  | overflow
  | sort
deriving DecidableEq, Repr

def category : Mishap → Category
  | notANumber _ | notWhole _ | tooManyDigits _ | tooLongToWrite | notAPair .. | nanAsRatio
  | nanAsWhole => .value
  | halves .. => .encoding
  | infinityAsRatio | infinityAsWhole | wholeTooLarge | quotientTooLarge | roundedTooLarge =>
    .overflow
  | wrongSort => .sort

/-- What is told about a mishap. Of a long text that is no whole numeral only the beginning of its
quoted form is shown. -/
def message : Mishap → String
  | notANumber t => "could not convert string to float: " ++ quotedString t
  | notWhole t =>
    "invalid literal for int() with base 10: " ++ String.ofList ((quoted t).take 200)
  | tooManyDigits n =>
    s!"Exceeds the limit ({Numeral.maxDigits} digits) for integer string conversion: " ++
      s!"value has {n} digits; use sys.set_int_max_str_digits() to increase the limit"
  | tooLongToWrite =>
    s!"Exceeds the limit ({Numeral.maxDigits} digits) for integer string conversion; " ++
      "use sys.set_int_max_str_digits() to increase the limit"
  | halves first position count =>
    let place := if count = 1 then
        s!"character '\\u" ++ String.ofList (hexadecimal 4 (0xD800 + first.val)) ++
          s!"' in position {position}"
      else s!"characters in position {position}-{position + count - 1}"
    "'utf-8' codec can't encode " ++ place ++ ": surrogates not allowed"
  | notAPair position size =>
    s!"dictionary update sequence element #{position} has length {size}; 2 is required"
  | nanAsRatio => "cannot convert NaN to integer ratio"
  | infinityAsRatio => "cannot convert Infinity to integer ratio"
  | nanAsWhole => "cannot convert float NaN to integer"
  | infinityAsWhole => "cannot convert float infinity to integer"
  | wholeTooLarge => "int too large to convert to float"
  | quotientTooLarge => "integer division result too large for a float"
  | roundedTooLarge => "rounded value too large to represent"
  | wrongSort => "wrong sort of value"

/-- How an evaluation reports a mishap: a size as an overflow, everything else as unexpected. -/
def asFault (m : Mishap) : Fault :=
  if m.category = .overflow then .overflow m.message else .unexpected m.message

end Mishap

/-- Why a call has no result. -/
inductive Failure where
  | fault (f : Fault)
  | mishap (m : Mishap)
deriving DecidableEq

end Reckoner
