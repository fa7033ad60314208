import Reckoner.Text.Numeral
import Reckoner.Table
import Reckoner.Fault.Mishap

set_option autoImplicit false

namespace Reckoner

/-- The value of a constant as a table holds it. -/
inductive Constant where
  | number (x : Float)
  | whole (n : Int)
  | text (t : CodePoints)
  | unset
  | unusable
deriving DecidableEq

namespace Constant

/-- The number that the value stands for; none for a name that stands for itself. -/
def number? : Constant → Except Mishap (Option Float)
  | number x => .ok (some x)
  | whole n => match Double.ofInt? n with
    | some x => .ok (some x)
    | none => .error .wholeTooLarge
  | text t => match Numeral.number? t.plain with
    | some x => .ok (some x)
    | none => .error (.notANumber t)
  | unset => .ok none
  | unusable => .error .wrongSort

/-- A value has a number, or none, in one way only: a name that stands for itself is unset. The two
conversions are parameters here, since no proof should have to compute them. -/
private theorem eq_unset_of_match (whole? : Int → Option Float) (text? : CodePoints → Option Float)
    {value : Constant} (h : (match value with
      | number x => .ok (some x)
      | whole n => match whole? n with
        | some x => .ok (some x)
        | none => .error .wholeTooLarge
      | text t => match text? t with
        | some x => .ok (some x)
        | none => .error (.notANumber t)
      | unset => .ok none
      | unusable => .error .wrongSort : Except Mishap (Option Float)) = .ok none) :
    value = unset := by
  cases value with
  | unset => rfl
  | number x => cases h
  | unusable => cases h
  | whole n =>
    dsimp only at h
    split at h <;> cases h
  | text t =>
    dsimp only at h
    split at h <;> cases h

theorem eq_unset_of_number? {value : Constant} (h : value.number? = .ok none) : value = unset := by
  delta number? at h
  exact eq_unset_of_match Double.ofInt? (fun t => Numeral.number? t.plain) h

def pi : Float := 3.141592653589793

def e : Float := 2.718281828459045

def builtin : Table Text Constant :=
  [(['e'], number e), (['p', 'i'], number pi), (['π'], number pi),
    (['∞'], number (Double.infinity false))]

end Constant

def constantText (constants : Table Text Constant) (name : Text) : Except Mishap Text :=
  match constants.get? name with
  | none => .ok name
  | some value => do
    match ← value.number? with
    | none => return name
    | some x => return '(' :: Double.plain x ++ [')']

def replaceConstants (constants : Table Text Constant) : Text → Except Mishap Text
  | [] => .ok []
  | c :: r =>
    if isConstantChar c then do
      let value ← constantText constants (c :: r.takeWhile isConstantChar)
      return value ++ (← replaceConstants constants (r.dropWhile isConstantChar))
    else do
      return c :: (← replaceConstants constants r)
termination_by t => t.length
decreasing_by
  · exact Nat.lt_succ_of_le (length_dropWhile_le _ _)
  · exact Nat.lt_succ_self _

end Reckoner
