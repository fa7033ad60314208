import Reckoner.Text.Character

set_option autoImplicit false

namespace Reckoner

inductive AngleMode where
  | degrees
  | radians
deriving DecidableEq, Repr

def AngleMode.ofRadiansFlag (flag : Bool) : AngleMode := if flag then radians else degrees

inductive Trig where
  | sin | cos | tan | asin | acos | atan | csc | sec | cot
deriving DecidableEq, Repr

namespace Trig

def all : List Trig := [sin, cos, tan, asin, acos, atan, csc, sec, cot]

def name : Trig → Text
  | sin => ['s', 'i', 'n']
  | cos => ['c', 'o', 's']
  | tan => ['t', 'a', 'n']
  | asin => ['a', 's', 'i', 'n']
  | acos => ['a', 'c', 'o', 's']
  | atan => ['a', 't', 'a', 'n']
  | csc => ['c', 's', 'c']
  | sec => ['s', 'e', 'c']
  | cot => ['c', 'o', 't']

theorem mem_all (f : Trig) : f ∈ all := by cases f <;> decide

end Trig

inductive Function where
  | trig (f : Trig)
  | exp | log | ln | abs | round | floor | ceil | fact
deriving DecidableEq, Repr

namespace Function

def all : List Function :=
  Trig.all.map trig ++ [exp, log, ln, abs, round, floor, ceil, fact]

def name : Function → Text
  | trig f => f.name
  | exp => ['e', 'x', 'p']
  | log => ['l', 'o', 'g']
  | ln => ['l', 'n']
  | abs => ['a', 'b', 's']
  | round => ['r', 'o', 'u', 'n', 'd']
  | floor => ['f', 'l', 'o', 'o', 'r']
  | ceil => ['c', 'e', 'i', 'l']
  | fact => ['f', 'a', 'c', 't']

def ofName? (t : Text) : Option Function := all.find? fun f => f.name == t

theorem mem_all (f : Function) : f ∈ all := by
  cases f with
  | trig f => exact List.mem_append_left _ (List.mem_map_of_mem (Trig.mem_all f))
  | _ => decide

theorem ofName?_name (f : Function) : ofName? f.name = some f := by
  cases f with
  | trig f => cases f <;> decide
  | _ => decide

theorem name_of_ofName? {t : Text} {f : Function} (h : ofName? t = some f) : f.name = t := by
  simpa using List.find?_some h

end Function

end Reckoner
