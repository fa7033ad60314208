import Mathlib.Data.List.ModifyLast
import Reckoner.Proofs.CommandLine.Once
import Reckoner.Proofs.Table

set_option autoImplicit false

namespace Reckoner

variable {session : Session} {setup : Setup} {bindings : Bindings} {text : Text} {r : Report}

namespace CommandLine

variable {manner : Manner} {line name : Text} {initial : Bindings} {last : Option Binding}

def Emission.toOutput : Emission → Emission
  | .err s => .out s
  | e => e

/-- What a run with one expression puts out, as the dialogue shows it: a report, which comes last, goes
to the channel of results. -/
def inDialogue (once : List Emission × Ending) : List Emission :=
  if once.2 = .exit 0 then once.1 else once.1.modifyLast Emission.toOutput

/-- What is put out for a line: what a run of its own puts out for it, and nothing for a blank line. -/
def turn (setup : Setup) (manner : Manner) (bindings : Bindings) (line : Text) : List Emission :=
  if (trimLine line).isEmpty then []
  else inDialogue (evaluateOnce (Session.start setup) manner bindings (trimLine line))

/-- The result of a line, as a text and as a binding, if it has one. -/
def result? (setup : Setup) (bindings : Bindings) (line : Text) : Option (Text × Binding) :=
  if (trimLine line).isEmpty then none
  else
    let reply := (Session.start setup).calculate bindings (trimLine line)
    reply.outcome.toOption.map fun text => (text, answerBinding bindings reply.session.memory)

/-- The bindings that a dialogue began with, and the last result, if there is one. -/
def given (initial : Bindings) : Option Binding → Bindings
  | none => initial
  | some value => initial.put answerName value

/-- The last result after one more line: the line's own, or the one there was. -/
def next (setup : Setup) (initial : Bindings) (last : Option Binding) (line : Text) : Option Binding :=
  ((result? setup (given initial last) line).map Prod.snd).or last

/-- The lines of a dialogue, each with the bindings that it is evaluated under: those that the dialogue
began with, and the last result of the lines before. -/
def contexts (setup : Setup) (initial : Bindings) (last : Option Binding) (lines : List Text) :
    List (Bindings × Text) :=
  lines.mapIdx fun i line => (given initial ((lines.take i).foldl (next setup initial) last), line)

def copied (emissions : List Emission) : List Text :=
  emissions.filterMap fun
    | .copied t => some t
    | .prompt | .out _ | .err _ => none

/-- Whether results are copied, and can be. -/
def Manner.copies (manner : Manner) : Bool := manner.copy && manner.clipboard == .working

/-- The results of a dialogue's lines, in order. -/
def results (setup : Setup) (contexts : List (Bindings × Text)) : List (Text × Binding) :=
  contexts.filterMap fun context => result? setup context.1 context.2

end CommandLine

end Reckoner
