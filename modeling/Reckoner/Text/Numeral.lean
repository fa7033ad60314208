import Reckoner.Text.DecimalDigit
import Reckoner.Text.Blank
import Reckoner.Decimal.Layout

set_option autoImplicit false

/- Numerals. Three grammars read a double: `literal?` is the operand of an expression, `scientific?`
the numeral with an exponent that expressions may hold, and `number?` the numeral of arguments,
bindings and settings, which also allows blanks, underscores and the words for infinity and NaN.
All of them take the digits of any script. -/
namespace Reckoner.Numeral

def splitSign : Text → Bool × Text
  | '-' :: r => (true, r)
  | '+' :: r => (false, r)
  | t => (false, t)

def digits (t : Text) : Text := t.takeWhile isDecimalDigit

def afterDigits (t : Text) : Text := t.dropWhile isDecimalDigit

/-- Digits, a point and digits, of which one side of the point may be empty and, with it, the
point missing; and what follows. -/
def fixed? (t : Text) : Option (Decimal × Text) :=
  let whole := digits t
  match afterDigits t with
  | '.' :: r =>
    let places := digits r
    if whole.isEmpty && places.isEmpty then none
    else some (⟨digitsValue (whole ++ places), -places.length⟩, afterDigits r)
  | r => if whole.isEmpty then none else some (⟨digitsValue whole, 0⟩, r)

def power? (t : Text) : Option (Int × Text) :=
  let (negative, r) := splitSign t
  let size : Int := digitsValue (digits r)
  if (digits r).isEmpty then none else some (if negative then -size else size, afterDigits r)

/-- The double that a signed decimal reads as. -/
def signed (negative : Bool) (d : Decimal) : Float := Double.ofMagnitude negative d.bits

/-- The value of an operand that is a number: a decimal or the name of infinity, with an optional
sign. -/
def literal? (t : Text) : Option Float :=
  let (negative, r) := splitSign t
  if r = Double.infinityName then some (Double.infinity negative)
  else match fixed? r with
    | some (d, []) => some (signed negative d)
    | _ => none

/-- A point and the digits after it, if a text begins with both: those digits, and what follows. -/
def splitPlaces : Text → Text × Text
  | '.' :: r => if (digits r).isEmpty then ([], '.' :: r) else (digits r, afterDigits r)
  | t => ([], t)

/-- A numeral with an exponent at the start of a text, such as `1.5E-3`, and what follows. Digits
stand on both sides of the point, if there is one, and the exponent's mark is a capital. -/
def scientific? (t : Text) : Option (Decimal × Text) :=
  let whole := digits t
  let (places, r) := splitPlaces (afterDigits t)
  if whole.isEmpty then none
  else match r with
    | 'E' :: r => (power? r).map fun (power, rest) =>
      (⟨digitsValue (whole ++ places), power - places.length⟩, rest)
    | _ => none

/-- A numeral without its underscores, each of which has to stand between two digits. -/
def joinDigits? (afterDigit : Bool) : Text → Option Text
  | [] => some []
  | c :: r =>
    if c = '_' then
      if afterDigit && startsWith isDecimalDigit r then joinDigits? false r else none
    else (joinDigits? (isDecimalDigit c) r).map (c :: ·)

def decimal? (t : Text) : Option Decimal :=
  match fixed? t with
  | some (d, []) => some d
  | some (d, c :: r) =>
    if c = 'e' ∨ c = 'E' then
      match power? r with
      | some (power, []) => some ⟨d.coefficient, d.exponent + power⟩
      | _ => none
    else none
  | none => none

/-- The value of a numeral as arguments, bindings and settings give it. -/
def number? (t : Text) : Option Float := do
  let (negative, r) := splitSign (← joinDigits? false (trimNumeral t))
  let word := String.ofList (r.map Char.toLower)
  if word = "inf" ∨ word = "infinity" then some (Double.infinity negative)
  else if word = "nan" then some Double.nan
  else (decimal? r).map (signed negative)

/-- How many digits a whole number may have where it is read exactly. -/
def maxDigits : Nat := 4300

/-- A whole number at the start of a text that may have blanks around it: whether there is a minus,
the digits without their underscores, and what follows. -/
def wholeRow? (t : Text) : Option (Bool × Text × Text) :=
  let (negative, r) := splitSign (trimNumeral t)
  let inRow (c : Char) : Bool := isDecimalDigit c || c == '_'
  (joinDigits? false (r.takeWhile inRow)).map fun digits => (negative, digits, r.dropWhile inRow)

private theorem length_afterDigits_le (t : Text) : (afterDigits t).length ≤ t.length :=
  length_dropWhile_le isDecimalDigit t

private theorem length_splitSign_le (t : Text) : (splitSign t).2.length ≤ t.length := by
  unfold splitSign
  split <;> simp

private theorem length_power? {t rest : Text} {power : Int} (h : power? t = some (power, rest)) :
    rest.length ≤ t.length := by
  simp only [power?] at h
  split at h
  · contradiction
  · cases h
    exact Nat.le_trans (length_afterDigits_le _) (length_splitSign_le t)

private theorem length_splitPlaces_le (t : Text) : (splitPlaces t).2.length ≤ t.length := by
  unfold splitPlaces
  split
  · split
    · exact Nat.le_refl _
    · exact Nat.le_succ_of_le (length_afterDigits_le _)
  · exact Nat.le_refl _

/-- What follows a numeral with an exponent is shorter than the text. -/
theorem length_scientific? {t rest : Text} {d : Decimal} (h : scientific? t = some (d, rest)) :
    rest.length < t.length := by
  have bound := Nat.le_trans (length_splitPlaces_le (afterDigits t)) (length_afterDigits_le t)
  simp only [scientific?] at h
  split at h
  · contradiction
  · split at h
    next r shape =>
      obtain ⟨⟨power, after⟩, found, same⟩ := Option.map_eq_some_iff.1 h
      cases same
      rw [shape] at bound
      exact Nat.lt_of_le_of_lt (length_power? found) bound
    next => contradiction

end Reckoner.Numeral
