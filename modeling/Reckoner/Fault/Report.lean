import Reckoner.Text.Quoted
import Reckoner.Decimal.Layout
import Reckoner.Fault.Kind

set_option autoImplicit false

namespace Reckoner

inductive Datum where
  | absent
  | truth (b : Bool)
  | integer (n : Int)
  | number (x : Float)
  | text (t : Text)
deriving DecidableEq

def Datum.logged : Datum → String
  | absent => "None"
  | truth true => "True"
  | truth false => "False"
  | integer n => toString n
  | number x => Double.shownString x
  | text t => quotedString t

/-- Named data in braces, as log lines show them. -/
def loggedFields (fields : List (String × Datum)) : String :=
  "\x7b" ++ ", ".intercalate (fields.map fun f => quotedString f.1.toList ++ ": " ++ f.2.logged) ++
    "\x7d"

/-- A fault as it is recorded. -/
structure Report where
  kind : Fault.Kind
  detail : String
  code : String
  equation : Option Text
  fields : List (String × Datum)
deriving DecidableEq

namespace Report

/-- A report with what is not given filled in. Only an indeterminate result has a sentence of its
own; every other kind needs one. -/
def ofParts? (kind : Fault.Kind) (detail code : Option String) (equation : Option Text)
    (fields : List (String × Datum)) : Option Report := do
  let standard := if kind = .indeterminate then some kind.headline else none
  let detail ← detail <|> standard
  some ⟨kind, detail, code.getD kind.code, equation, fields⟩

def family (r : Report) : Fault.Family := r.kind.family

def logged (r : Report) : String :=
  let equation := r.equation.elim Datum.absent Datum.text
  "ErrorRecord(kind=<ErrorKind." ++ r.kind.label ++ ": " ++ quotedString r.kind.name.toList ++
    ">, detail=" ++ quotedString r.detail.toList ++ ", code=" ++ quotedString r.code.toList ++
    ", equation=" ++ equation.logged ++ ", fields=" ++ loggedFields r.fields ++ ")"

end Report

end Reckoner
