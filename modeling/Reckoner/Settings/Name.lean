import Reckoner.Json.Writer

set_option autoImplicit false

namespace Reckoner.Settings

inductive Name where
  | text (t : CodePoints)
  | number (x : Float)
  | integer (n : Int)
  | truth (b : Bool)
  | null

namespace Name

/-- What tells a name apart from others. -/
inductive Identity where
  | text (t : CodePoints)
  | value (q : Rat)
  | infinite (negative : Bool)
  | nan
  | null
deriving DecidableEq

def identity : Name → Identity
  | text t => .text t
  | number x =>
    if x.isNaN then .nan
    else if x.isInf then .infinite (Double.isNegative x)
    else .value (Double.toRat x)
  | integer n => .value (mkRat n 1)
  | truth b => .value (mkRat b.toInt 1)
  | null => .null

instance : BEq Name := ⟨fun a b => a.identity == b.identity⟩

theorem beq_eq (a b : Name) : (a == b) = (a.identity == b.identity) := rfl

instance : EquivBEq Name where
  rfl {a} := (BEq.rfl : (a.identity == a.identity) = true)
  symm {a b} h := (BEq.symm h : (b.identity == a.identity) = true)
  trans {a _ c} h k := (BEq.trans h k : (a.identity == c.identity) = true)

def ofJson? : Json → Option Name
  | .text t => some (text t)
  | .number x => some (number x)
  | .integer n => some (integer n)
  | .truth b => some (truth b)
  | .null => some null
  | .array _ | .object _ => none

def toJson : Name → Json
  | text t => .text t
  | number x => .number x
  | integer n => .integer n
  | truth b => .truth b
  | null => .null

/-- The name as the member of an object. What is no text becomes the text that writes it. -/
def member : Name → CodePoints
  | text t => t
  | name => name.toJson.compact.text

end Name

end Reckoner.Settings
