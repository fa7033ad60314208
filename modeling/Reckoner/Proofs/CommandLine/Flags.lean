import Reckoner.CommandLine.Run
import Reckoner.Proofs.Outcome

set_option autoImplicit false

namespace Reckoner.CommandLine

/-- The switches that stand for settings. -/
inductive Flag where
  | radians | degrees | fractions | copy | debug
deriving DecidableEq, Repr

namespace Flag

def text : Flag → Text
  | radians => "--radians".toList
  | degrees => "--degrees".toList
  | fractions => "--fractions".toList
  | copy => "--copy".toList
  | debug => "--debug".toList

def switch : Flag → Switch
  | radians => .radians
  | degrees => .degrees
  | fractions => .fractions
  | copy => .copy
  | debug => .debug

def key : Flag → Text
  | radians | degrees => Settings.radiansKey
  | fractions => Settings.fractionsKey
  | copy => Settings.copyKey
  | debug => Settings.debugKey

def value : Flag → Bool
  | degrees => false
  | _ => true

/-- The flag in the place of a setting. -/
def entry (f : Flag) : Settings.Name × Json := (.text f.key, .truth f.value)

end Flag

variable {request : Request} {flags : List Flag} {f : Flag} {t : Text} {token : Token}
  {tokens : List Token} {p : Progress}

/-- No two flags give different values to one setting, so the unit of angles is chosen once. -/
def Coherent (flags : List Flag) : Prop :=
  ∀ f ∈ flags, ∀ g ∈ flags, f.key = g.key → f = g

namespace Request

def adding (request : Request) : Flag → Request
  | .radians => { request with radians := some true }
  | .degrees => { request with radians := some false }
  | .fractions => { request with fractions := true }
  | .copy => { request with copy := true }
  | .debug => { request with debug := true }

def flagged (request : Request) (flags : List Flag) : Request := flags.foldl adding request

def Has (request : Request) : Flag → Prop
  | .radians => request.radians = some true
  | .degrees => request.radians = some false
  | .fractions => request.fractions = true
  | .copy => request.copy = true
  | .debug => request.debug = true

def bare (request : Request) : Request :=
  { request with radians := none, fractions := false, copy := false, debug := false }

theorem has_adding (request : Request) (f : Flag) : (request.adding f).Has f := by
  cases f <;> rfl

/-- A flag gives way only to one with another value for its setting. -/
theorem Has.adding {g : Flag} (has : request.Has g) (same : f.key = g.key → f = g) :
    (request.adding f).Has g := by
  cases f <;> cases g <;> first | exact has | exact rfl | exact absurd (same rfl) (by decide)

theorem has_of_adding {g : Flag} (has : (request.adding f).Has g) : g = f ∨ request.Has g := by
  cases f <;> cases g <;>
    first | exact .inl rfl | exact .inr has | exact absurd has (by simp [adding, Has])

theorem Has.flagged {g : Flag} (has : request.Has g) (same : ∀ f ∈ flags, f.key = g.key → f = g) :
    (request.flagged flags).Has g := by
  induction flags generalizing request with
  | nil => exact has
  | cons f flags ih =>
    obtain ⟨first, later⟩ := List.forall_mem_cons.1 same
    exact ih (has.adding first) later

theorem has_flagged {g : Flag} (member : g ∈ flags) (same : ∀ f ∈ flags, f.key = g.key → f = g) :
    (request.flagged flags).Has g := by
  induction flags generalizing request with
  | nil => cases member
  | cons f flags ih =>
    obtain ⟨first, later⟩ := List.forall_mem_cons.1 same
    rcases List.mem_cons.1 member with rfl | member
    · exact (has_adding request g).flagged later
    · exact ih member later

theorem has_of_flagged {g : Flag} (has : (request.flagged flags).Has g) :
    g ∈ flags ∨ request.Has g := by
  induction flags generalizing request with
  | nil => exact .inr has
  | cons f flags ih =>
    rcases ih has with member | has
    · exact .inl (.tail _ member)
    · rcases has_of_adding has with rfl | has
      · exact .inl (.head _)
      · exact .inr has

theorem not_has_empty (f : Flag) : ¬ Request.empty.Has f := by
  cases f <;> simp [Has, empty]

/-- The request for some flags has these and no others. -/
theorem has_flagged_empty_iff (coherent : Coherent flags) :
    (Request.empty.flagged flags).Has f ↔ f ∈ flags := by
  constructor
  · intro has
    exact (has_of_flagged has).resolve_right (not_has_empty f)
  · intro member
    exact has_flagged member fun g other => coherent g other f member

theorem bare_adding (request : Request) (f : Flag) : (request.adding f).bare = request.bare := by
  cases f <;> rfl

theorem bare_flagged (request : Request) (flags : List Flag) :
    (request.flagged flags).bare = request.bare := by
  induction flags generalizing request with
  | nil => rfl
  | cons f flags ih => exact (ih (request.adding f)).trans (bare_adding request f)

end Request

theorem classify_text (f : Flag) : classify f.text = .ok (.switch f.switch none) := by
  cases f <;> rfl

def switches (flags : List Flag) : List Token := flags.map fun f => .switch f.switch none

/-- Flags and one more argument are told apart one by one. -/
theorem tokens_flags (last : classify t = .ok token) (open' : token ≠ .separator) :
    CommandLine.tokens (flags.map Flag.text ++ [t]) = .ok (switches flags ++ [token]) := by
  induction flags with
  | nil =>
    simp only [List.map_nil, List.nil_append, CommandLine.tokens, last, bind, Except.bind, if_neg open']
    rfl
  | cons f flags ih =>
    have other : ¬ Token.switch f.switch none = .separator := fun same => by cases same
    simp only [List.map_cons, List.cons_append, CommandLine.tokens, classify_text, ih, bind,
      Except.bind, if_neg other]
    rfl

theorem flag_switch (same : ∀ g, p.request.Has g → f.key = g.key → f = g) :
    p.flag f.switch = .ok { p with request := p.request.adding f } := by
  cases f with
  | radians =>
    have free : ¬ p.request.radians = some false := fun degrees =>
      absurd (same .degrees degrees rfl) (by decide)
    exact if_neg free
  | degrees =>
    have free : ¬ p.request.radians = some true := fun radians =>
      absurd (same .radians radians rfl) (by decide)
    exact if_neg free
  | fractions => rfl
  | copy => rfl
  | debug => rfl

/-- Flags are read into the request. -/
theorem read_switches (coherent : Coherent flags)
    (same : ∀ f ∈ flags, ∀ g, p.request.Has g → f.key = g.key → f = g) :
    p.read (switches flags ++ tokens) =
      Progress.read { p with request := p.request.flagged flags } tokens := by
  induction flags generalizing p with
  | nil => rfl
  | cons f flags ih =>
    obtain ⟨first, later⟩ := List.forall_mem_cons.1 same
    have step : p.read (.switch f.switch none :: (switches flags ++ tokens)) =
        (p.flag f.switch).bind fun q => q.read (switches flags ++ tokens) := by
      cases f <;> rfl
    refine step.trans ?_
    rw [flag_switch first]
    refine ih (p := { p with request := p.request.adding f })
      (fun g inside h member => coherent g (.tail _ inside) h (.tail _ member)) ?_
    intro g inside h has key
    rcases Request.has_of_adding has with rfl | has
    · exact coherent g (.tail _ inside) h (.head _) key
    · exact later g inside h has key

theorem parse_of_tokens {arguments : List Text} (told : CommandLine.tokens arguments = .ok tokens) :
    parse arguments = (Progress.read ⟨.empty, false, []⟩ tokens).bind fun progress =>
      if progress.extras.isEmpty then .ok progress.request
      else .error (.usage (.unrecognized progress.extras)) := by
  unfold parse
  rw [told]
  rfl

theorem parse_flags (coherent : Coherent flags) (last : classify t = .ok token)
    (open' : token ≠ .separator) : parse (flags.map Flag.text ++ [t]) =
      (Progress.read ⟨Request.empty.flagged flags, false, []⟩ [token]).bind fun progress =>
        if progress.extras.isEmpty then .ok progress.request
        else .error (.usage (.unrecognized progress.extras)) := by
  have read : Progress.read ⟨.empty, false, []⟩ (switches flags ++ [token]) = _ :=
    read_switches coherent fun f _ g has => absurd has (Request.not_has_empty g)
  rw [parse_of_tokens (tokens_flags last open'), read]

def saveText : Text := "--save".toList

/-- Flags before the switch that stores settings. -/
theorem parse_flags_save (coherent : Coherent flags) : parse (flags.map Flag.text ++ [saveText]) =
    .ok { Request.empty.flagged flags with save := true } := by
  have last : classify saveText = .ok (.switch .save none) := rfl
  rw [parse_flags coherent last (fun same => by cases same)]
  rfl

/-- Flags before an expression. -/
theorem parse_flags_operand (coherent : Coherent flags) (last : classify t = .ok (.operand t)) :
    parse (flags.map Flag.text ++ [t]) =
      .ok { Request.empty.flagged flags with expression := some t } := by
  rw [parse_flags coherent last (fun same => by cases same)]
  rfl

theorem tokens_singleton (last : classify t = .ok token) : CommandLine.tokens [t] = .ok [token] := by
  simp only [CommandLine.tokens, last, bind, Except.bind, List.map_nil, pure, Except.pure, ite_self]

theorem expression_bind {q : Progress} (bound : p.bind t = .ok q) :
    q.request.expression = p.request.expression := by
  unfold Progress.bind at bound
  dsimp only at bound
  split at bound
  · cases bound
    rfl
  · split at bound
    · cases bound
      rfl
    · contradiction

theorem expression_flag {s : Switch} {q : Progress} (set : p.flag s = .ok q) :
    q.request.expression = p.request.expression := by
  have angles {radians : Bool} (set : p.angles radians = .ok q) :
      q.request.expression = p.request.expression := by
    unfold Progress.angles at set
    dsimp only at set
    split at set
    · contradiction
    · cases set
      rfl
  cases s with
  | help => contradiction
  | var => contradiction
  | radians => exact angles set
  | degrees => exact angles set
  | _ =>
    cases set
    rfl

/-- No switch gives an expression. -/
theorem expression_read_switch {s : Switch} {value : Option Text} {q : Progress}
    (read : p.read [.switch s value] = .ok q) : q.request.expression = p.request.expression := by
  cases value with
  | some value =>
    by_cases var : s = .var
    · subst var
      obtain ⟨q', bound, rest⟩ := bind_eq_ok read
      cases rest
      exact expression_bind bound
    · cases s <;> contradiction
  | none =>
    by_cases var : s = .var
    · subst var
      contradiction
    · have step : p.read [.switch s none] = (p.flag s).bind fun q => q.read [] := by
        cases s <;> first | rfl | exact absurd rfl var
      obtain ⟨q', set, rest⟩ := bind_eq_ok (step ▸ read)
      cases rest
      exact expression_flag set

/-- What is taken as the expression when it stands alone is an operand. -/
theorem classify_of_parse (alone : parse [t] = .ok request) (taken : request.expression = some t) :
    classify t = .ok (.operand t) := by
  cases told : classify t with
  | error e =>
    simp only [parse, CommandLine.tokens, told] at alone
    contradiction
  | ok token =>
    rw [parse_of_tokens (tokens_singleton told)] at alone
    obtain ⟨progress, read, rest⟩ := bind_eq_ok alone
    split at rest
    next none =>
      cases rest
      cases token with
      | operand u =>
        cases read
        cases taken
        rfl
      | separator =>
        cases read
        cases taken
      | switch s value =>
        rw [expression_read_switch read] at taken
        cases taken
      | unknown u =>
        cases read
        cases none
    next => contradiction

end Reckoner.CommandLine
