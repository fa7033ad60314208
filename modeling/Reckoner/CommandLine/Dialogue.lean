import Reckoner.CommandLine.Output

set_option autoImplicit false

namespace Reckoner.CommandLine

/-- A dialogue between two lines. -/
structure Dialogue where
  session : Session
  bindings : Bindings

inductive Next where
  | line (d : Dialogue)
  | finished
  | mishap (m : Mishap)

/-- The name of the last result. -/
def answerName : Text := ['a', 'n', 's']

def isQuitWord (t : Text) : Bool :=
  let word := t.map Char.toLower
  word == "quit".toList || word == "exit".toList

/-- What the last result is bound to. It is NaN only for an expression that is nothing but a
variable, signs and parentheses apart, and then it is the NaN that the variable holds. -/
def answerBinding (bindings : Bindings) (memory : Memory) : Binding :=
  match memory.result with
  | none => .unset
  | some x =>
    let operand := (memory.expression.getD []).filter fun c => !(c == '(' || c == ')')
    if x.isNaN && isNegatedNaN bindings operand then .negatedNaN else .number x

namespace Dialogue

def answer (d : Dialogue) (manner : Manner) (line : Text) : List Emission × Next :=
  let expression := trimLine line
  if expression.isEmpty then ([], .line d)
  else if isQuitWord expression then ([], .finished)
  else
    let reply := d.session.calculate d.bindings expression
    let setup := d.session.setup
    let log := logLines setup reply.events
    match reply.outcome with
    | .ok result =>
      let bindings := d.bindings.put answerName (answerBinding d.bindings reply.session.memory)
      (log ++ resultLines setup manner expression result, .line ⟨reply.session, bindings⟩)
    | .error (.fault r) =>
      (log ++ [.out (reportLines r)], .line { d with session := reply.session })
    | .error (.mishap m) => (log, .mishap m)

/-- The answers to all lines, with a prompt before every line and before the end, and the mishap
that ends the dialogue early, if there is one. -/
def run (d : Dialogue) (manner : Manner) : List Text → List Emission × Option Mishap
  | [] => ([.prompt], none)
  | line :: rest =>
    match d.answer manner line with
    | (emissions, .line d) =>
      let (more, ending) := d.run manner rest
      (.prompt :: emissions ++ more, ending)
    | (emissions, .finished) => (.prompt :: emissions, none)
    | (emissions, .mishap m) => (.prompt :: emissions, some m)

end Dialogue

/-- The lines of a text. What follows the last line end is a line if it is not empty. -/
def lines : Text → List Text
  | [] => []
  | c :: r =>
    if c = '\n' then [] :: lines r
    else match lines r with
      | [] => [[c]]
      | line :: rest => (c :: line) :: rest

end Reckoner.CommandLine
