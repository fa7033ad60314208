import Reckoner.Table
import Reckoner.Text.CodePoint

set_option autoImplicit false

namespace Reckoner

inductive Json where
  | null
  | truth (b : Bool)
  | integer (n : Int)
  | number (x : Float)
  | text (t : CodePoints)
  | array (items : List Json)
  | object (members : List (CodePoints × Json))

namespace Json

def members? : Json → Option (Table CodePoints Json)
  | object members => some members
  | _ => none

def get? (json : Json) (name : CodePoints) : Option Json :=
  json.members?.bind fun members => Table.get? members name

/-- Whether the value counts as true: everything does but null, false, zero and what is empty. -/
def isTrue : Json → Bool
  | null => false
  | truth b => b
  | integer n => n != 0
  | number x => x != 0
  | text t => !t.isEmpty
  | array items => !items.isEmpty
  | object members => !members.isEmpty

end Json

end Reckoner
