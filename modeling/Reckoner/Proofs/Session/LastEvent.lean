import Reckoner.Proofs.Evaluation.Nesting
import Reckoner.Proofs.Session.Calls

set_option autoImplicit false

/- The last event of a solution. It tells the fault that is left, or the value before it is rounded. Only
a mishap of the execution, which is reported as an unexpected fault, goes without an event of its own:
then the last event is the one that was passed before the call with the argument that is no number. -/
namespace Reckoner

variable {context : Context} {setup : Setup} {session : Session} {bindings : Bindings} {raw t : Text}
  {x : Float} {r : Report} {m : Mishap} {events : List Event}

namespace Traced

variable {ε ε' α β : Type}

theorem events_handle_ok {y : Traced ε α} {a : α} (value : y.outcome = .ok a)
    (f : ε → Traced ε' α) : (y.handle f).events = y.events := by
  obtain ⟨events, outcome⟩ := y
  cases value
  rfl

theorem events_handle_error {y : Traced ε α} {e : ε} (failed : y.outcome = .error e)
    (f : ε → Traced ε' α) : (y.handle f).events = y.events ++ (f e).events := by
  obtain ⟨events, outcome⟩ := y
  cases failed
  rfl

end Traced

theorem getLast?_append_of_some {front back : List Event} {e : Event} (last : back.getLast? = some e) :
    (front ++ back).getLast? = some e := by
  rw [List.getLast?_append, last, Option.some_or]

/-- Whether calls are solved next: a segment was found, or a call in it was solved. -/
def Event.BeforeCall : Event → Prop
  | segmentFound _ | callSolved .. => True
  | _ => False

/-- The events end with one before a call. -/
def EndsBeforeCall (events : List Event) : Prop := ∃ e, events.getLast? = some e ∧ e.BeforeCall

theorem EndsBeforeCall.append (front : List Event) (ends : EndsBeforeCall events) :
    EndsBeforeCall (front ++ events) := by
  obtain ⟨e, last, before⟩ := ends
  exact ⟨e, getLast?_append_of_some last, before⟩

theorem endsBeforeCall_solveSegment
    (failed : (solveSegment context t).outcome = .error (.mishap m)) :
    EndsBeforeCall (solveSegment context t).events := by
  rw [solveSegment_outcome] at failed
  rcases bind_eq_error failed with calls | ⟨u, _, operations⟩
  · have events : (solveSegment context t).events =
        .segmentFound t :: (solveCalls context [] t).events := by
      unfold solveSegment
      rw [Traced.events_bind (Traced.outcome_emit _), Traced.events_bind_error calls]
      rfl
    rw [events]
    cases shape : (solveCalls context [] t).events.getLast? with
    | none =>
      rw [List.getLast?_eq_none_iff.1 shape]
      exact ⟨_, rfl, trivial⟩
    | some e' =>
      have member := List.mem_of_getLast? shape
      obtain ⟨call, y, u, rfl⟩ := events_solveCalls context [] t e' member
      have last : ([Event.segmentFound t] ++ (solveCalls context [] t).events).getLast? = _ :=
        getLast?_append_of_some shape
      exact ⟨_, last, trivial⟩
  · -- Operations end with faults only.
    obtain ⟨f, _, wrong⟩ := mapError_eq_error (map_eq_error.1 operations)
    cases wrong

theorem endsBeforeCall_solveGroups {outer : List Text} {inner rest : Text}
    (failed : (solveGroups context outer inner rest).outcome = .error (.mishap m)) :
    EndsBeforeCall (solveGroups context outer inner rest).events := by
  fun_induction solveGroups context outer inner rest with
  | case1 => contradiction
  | case2 _ _ _ ih => exact ih failed
  | case3 outer inner r _ ih =>
    rw [Traced.outcome_bind, Traced.outcome_emit] at failed
    rw [Traced.events_bind (Traced.outcome_emit _)]
    apply EndsBeforeCall.append
    simp only [Except.bind, Traced.outcome_bind] at failed
    rcases bind_eq_error failed with segment | ⟨value, segment, failed⟩
    · rw [Traced.events_bind_error segment]
      exact endsBeforeCall_solveSegment segment
    · rw [Traced.events_bind segment]
      apply EndsBeforeCall.append
      cases outer with
      | nil => contradiction
      | cons beginning outer => exact ih value beginning outer failed
  | case4 _ _ _ _ _ _ ih => exact ih failed

theorem endsBeforeCall_solveExpression
    (failed : (solveExpression context t).outcome = .error (.mishap m)) :
    EndsBeforeCall (solveExpression context t).events := by
  rw [solveExpression_outcome] at failed
  rcases bind_eq_error failed with groups | ⟨u, _, result⟩
  · unfold solveExpression
    rw [Traced.events_bind (Traced.outcome_emit _), Traced.events_bind_error groups]
    exact (endsBeforeCall_solveGroups groups).append _
  · obtain ⟨f, _, wrong⟩ := mapError_eq_error result
    cases wrong

/-- The last event of an evaluation that comes to a value is the value. -/
theorem last_solveExpression (value : (solveExpression context t).outcome = .ok x) :
    (solveExpression context t).events.getLast? = some (.evaluated x) := by
  rw [solveExpression_outcome] at value
  obtain ⟨u, groups, resolved⟩ := bind_eq_ok value
  unfold solveExpression
  rw [Traced.events_bind (Traced.outcome_emit _), Traced.events_bind groups,
    Traced.events_bind ((Traced.outcome_ofExcept _).trans resolved)]
  exact getLast?_append_of_some (getLast?_append_of_some (getLast?_append_of_some rfl))

namespace Setup

def Refuses (setup : Setup) (raw : Text) : Prop :=
  ∃ t f, (canonical setup.constants raw).outcome = .ok t ∧ (check t).outcome = .error f

theorem not_refuses_of_checked (checked : (setup.checked raw).outcome = .ok t) :
    ¬ setup.Refuses raw := by
  rintro ⟨u, f, written, refused⟩
  obtain ⟨written', passed⟩ := checked_eq_ok_iff.1 checked
  rw [written] at written'
  cases written'
  rw [refused] at passed
  contradiction

/-- What the check finds is told by the last event. -/
theorem last_checked (checked : (setup.checked raw).outcome = .error (.fault r)) :
    setup.Refuses raw ∧ (setup.checked raw).events.getLast? = some (.checkFailed r) := by
  rw [outcome_checked] at checked
  rcases bind_eq_error checked with wrong | ⟨t, written, checked⟩
  · obtain ⟨m, _, other⟩ := mapError_eq_error wrong
    cases other
  · cases passed : (check t).outcome with
    | ok _ =>
      rw [passed] at checked
      contradiction
    | error f =>
      rw [passed] at checked
      cases checked
      refine ⟨⟨t, f, mapError_eq_ok.1 written, passed⟩, ?_⟩
      unfold Setup.checked
      rw [Traced.events_bind written]
      apply getLast?_append_of_some
      rw [Traced.events_bind_error (by rw [Traced.outcome_handle, passed]; rfl),
        Traced.events_handle_error passed]
      exact getLast?_append_of_some rfl

/-- The value of an execution is told by its last event. -/
theorem last_execute (executed : (setup.execute bindings raw t).outcome = .ok x) :
    (setup.execute bindings raw t).events.getLast? = some (.evaluated x) := by
  unfold execute at executed ⊢
  rw [Traced.outcome_handle] at executed
  cases evaluated : (solveExpression ⟨bindings, setup.angles⟩ t).outcome with
  | ok y =>
    rw [evaluated] at executed
    cases executed
    rw [Traced.events_handle_ok evaluated]
    exact last_solveExpression evaluated
  | error e =>
    rw [evaluated] at executed
    cases e <;> cases executed

/-- A fault of an execution is told by its last event, and a mishap by none. -/
theorem last_execute_error (executed : (setup.execute bindings raw t).outcome = .error r) :
    (r.kind ≠ .unexpected ∧
      (setup.execute bindings raw t).events.getLast? = some (.evaluationFailed r)) ∨
    (r.kind = .unexpected ∧ EndsBeforeCall (setup.execute bindings raw t).events ∧
      ∃ m, (solveExpression ⟨bindings, setup.angles⟩ t).outcome = .error (.mishap m)) := by
  unfold execute at executed ⊢
  rw [Traced.outcome_handle] at executed
  cases evaluated : (solveExpression ⟨bindings, setup.angles⟩ t).outcome with
  | ok y =>
    rw [evaluated] at executed
    contradiction
  | error e =>
    have execution := ofExecution_of_solveExpression evaluated
    rw [evaluated] at executed
    rw [Traced.events_handle_error evaluated]
    cases e with
    | fault f =>
      cases executed
      refine .inl ⟨?_, getLast?_append_of_some rfl⟩
      intro unexpected
      have family : f.kind.family = .execution := execution
      have kind : f.kind = .unexpected := unexpected
      rw [kind] at family
      contradiction
    | mishap m =>
      cases executed
      obtain ⟨u, rfl, _⟩ := execution
      refine .inr ⟨rfl, ?_, _, rfl⟩
      rw [show (Traced.fail _ : Traced Report Float).events = [] from rfl, List.append_nil]
      exact endsBeforeCall_solveExpression evaluated

end Setup

/-- What a call gives and leaves while a trace listens to it, or none; and what the trace has kept
then. -/
def Reply.heard {α σ : Type} (reply : Reply α) (trace : Option (σ → Event → σ)) (kept : σ) :
    Except Refusal α × Memory × σ :=
  (reply.outcome, reply.session.memory, trace.elim kept fun hear => reply.events.foldl hear kept)

namespace Session

def logging (session : Session) (debug : Bool) : Session :=
  { session with setup := { session.setup with debug } }

/-- The last event of a solution tells how it ends: the fault that is left, as one of the check just
when that refuses the canonical form, or the value whose rounding is left as the result. -/
structure Announced (session : Session) (raw : Text) (reply : Reply (Option Float)) : Prop where
  failure : reply.outcome = .ok none → ∃ r, reply.session.memory.fault = some r ∧
    (session.setup.Refuses raw → reply.events.getLast? = some (.checkFailed r)) ∧
    (¬ session.setup.Refuses raw → reply.events.getLast? = some (.evaluationFailed r))
  success : ∀ y, reply.outcome = .ok (some y) → reply.session.memory.result = some y ∧
    ∃ x, reply.events.getLast? = some (.evaluated x) ∧
      Display.round session.setup.style.places x = .ok y

theorem solve_logging (session : Session) (debug : Bool) (bindings : Bindings) (raw : Text) :
    (session.logging debug).solve bindings raw =
      let reply := session.solve bindings raw
      ⟨reply.events, reply.outcome, reply.session.logging debug⟩ := by
  have same : (session.logging debug).setup.evaluate bindings raw =
      session.setup.evaluate bindings raw := rfl
  unfold solve
  rw [same]
  cases evaluated : (session.setup.evaluate bindings raw).outcome with
  | error m => simp only [evaluated]
  | ok e =>
    simp only [evaluated]
    rfl

theorem solve_of_rejected (checked : (session.setup.checked raw).outcome = .error (.fault r)) :
    session.solve bindings raw = ⟨(session.setup.checked raw).events, .ok none,
      { session with memory := ⟨some raw, bindings, some r, none⟩ }⟩ := by
  unfold solve Setup.evaluate
  simp only [checked, Option.getD_none]

theorem solve_of_failed (checked : (session.setup.checked raw).outcome = .ok t)
    (executed : (session.setup.execute bindings raw t).outcome = .error r) :
    session.solve bindings raw =
      ⟨(session.setup.checked raw).events ++ (session.setup.execute bindings raw t).events, .ok none,
        { session with memory := ⟨some t, bindings, some r, none⟩ }⟩ := by
  unfold solve Setup.evaluate
  simp only [checked, executed, Option.getD_some]

theorem solve_of_valued {y : Float} (checked : (session.setup.checked raw).outcome = .ok t)
    (executed : (session.setup.execute bindings raw t).outcome = .ok x)
    (rounded : Display.round session.setup.style.places x = .ok y) :
    session.solve bindings raw =
      ⟨(session.setup.checked raw).events ++ (session.setup.execute bindings raw t).events,
        .ok (some y), { session with memory := ⟨some t, bindings, none, some y⟩ }⟩ := by
  unfold solve Setup.evaluate
  simp only [checked, executed, rounded, Except.map, Option.getD_some]

/-- How a solution ends, and what is heard last: what is left is announced, unless it is an unexpected
fault, and then the last event is one before a call. -/
structure Concluded (session : Session) (bindings : Bindings) (raw : Text)
    (reply : Reply (Option Float)) : Prop where
  ends : ∃ value, reply.outcome = .ok value ∧ (value = none ↔ reply.session.memory.fault ≠ none)
  announced : session.Announced raw reply ↔
    ∀ r, reply.session.memory.fault = some r → r.kind ≠ .unexpected
  unexpected : ∀ r, reply.session.memory.fault = some r → r.kind = .unexpected →
    EndsBeforeCall reply.events ∧ ∃ t, (session.setup.checked raw).outcome = .ok t ∧
      ¬ (NamesApart t ∧ CallsFunctions ⟨bindings, session.setup.angles⟩ t)

/-- A solution whose failure is announced as that of the check or of the evaluation. -/
theorem concluded_of_failure {reply : Reply (Option Float)} (none : reply.outcome = .ok none)
    (left : reply.session.memory.fault = some r) (kind : r.kind ≠ .unexpected)
    (last : (session.setup.Refuses raw ∧ reply.events.getLast? = some (.checkFailed r)) ∨
      (¬ session.setup.Refuses raw ∧ reply.events.getLast? = some (.evaluationFailed r))) :
    session.Concluded bindings raw reply := by
  have expected : ∀ r', reply.session.memory.fault = some r' → r'.kind ≠ .unexpected := by
    intro r' left'
    rw [left] at left'
    cases left'
    exact kind
  refine ⟨⟨_, none, fun _ => ?_, fun _ => rfl⟩, ⟨fun _ => expected, fun _ => ⟨fun _ => ?_, ?_⟩⟩,
    fun r' left' unexpected => absurd unexpected (expected r' left')⟩
  · rw [left]
    exact Option.some_ne_none r
  · refine ⟨r, left, ?_⟩
    rcases last with ⟨refuses, last⟩ | ⟨passes, last⟩
    · exact ⟨fun _ => last, fun passes => absurd refuses passes⟩
    · exact ⟨fun refuses => absurd refuses passes, fun _ => last⟩
  · intro y value
    rw [none] at value
    cases value

/-- An event before a call announces nothing. -/
theorem not_announced {reply : Reply (Option Float)} (none : reply.outcome = .ok none)
    (before : EndsBeforeCall reply.events) : ¬ session.Announced raw reply := by
  intro announced
  obtain ⟨r, _, refuses, passes⟩ := announced.failure none
  obtain ⟨e, last, before⟩ := before
  by_cases refused : session.setup.Refuses raw
  · rw [refuses refused] at last
    cases last
    exact before
  · rw [passes refused] at last
    cases last
    exact before

theorem concluded_of_unexpected {reply : Reply (Option Float)} (none : reply.outcome = .ok none)
    (left : reply.session.memory.fault = some r) (kind : r.kind = .unexpected)
    (before : EndsBeforeCall reply.events) (checked : (session.setup.checked raw).outcome = .ok t)
    (names : ¬ (NamesApart t ∧ CallsFunctions ⟨bindings, session.setup.angles⟩ t)) :
    session.Concluded bindings raw reply := by
  refine ⟨⟨_, none, fun _ => ?_, fun _ => rfl⟩, ⟨fun announced => ?_, fun expected => ?_⟩,
    fun _ _ _ => ⟨before, t, checked, names⟩⟩
  · rw [left]
    exact Option.some_ne_none r
  · exact absurd announced (not_announced none before)
  · exact absurd kind (expected r left)

theorem concluded_of_value {reply : Reply (Option Float)} {y : Float}
    (value : reply.outcome = .ok (some y)) (fault : reply.session.memory.fault = none)
    (result : reply.session.memory.result = some y) (last : reply.events.getLast? = some (.evaluated x))
    (rounded : Display.round session.setup.style.places x = .ok y) :
    session.Concluded bindings raw reply := by
  have none (r : Report) (left : reply.session.memory.fault = some r) : False := by
    rw [fault] at left
    contradiction
  refine ⟨⟨_, value, ?_⟩, ⟨fun _ r left => (none r left).elim, fun _ => ⟨?_, ?_⟩⟩,
    fun r left => (none r left).elim⟩
  · rw [fault]
    exact iff_of_false (Option.some_ne_none y) (fun absent => absent rfl)
  · intro failed
    rw [value] at failed
    cases failed
  · intro y' value'
    rw [value] at value'
    cases value'
    exact ⟨result, x, last, rounded⟩

theorem concluded_solve (numeric : session.setup.constants.Numeric)
    (nonnegative : 0 ≤ session.setup.style.places) :
    session.Concluded bindings raw (session.solve bindings raw) := by
  cases session.setup.ends bindings raw with
  | unread m checked => exact absurd checked (Setup.not_unread numeric raw m)
  | rejected r checked _ family =>
    rw [solve_of_rejected checked]
    refine concluded_of_failure rfl rfl (fun unexpected => ?_) (.inl (Setup.last_checked checked))
    have syntactic : r.kind.family = .syntactic := family
    rw [unexpected] at syntactic
    contradiction
  | failed t r checked executed _ _ =>
    rw [solve_of_failed checked executed]
    rcases Setup.last_execute_error executed with ⟨kind, last⟩ | ⟨kind, before, m, evaluated⟩
    · exact concluded_of_failure rfl rfl kind
        (.inr ⟨Setup.not_refuses_of_checked checked, getLast?_append_of_some last⟩)
    · refine concluded_of_unexpected rfl rfl kind (before.append _) checked ?_
      intro ⟨names, calls⟩
      exact solveExpression_ne_mishap (accepted_of_checked checked) names calls m evaluated
  | valued t x checked executed =>
    obtain ⟨y, rounded, _⟩ := Display.exists_round nonnegative x
    rw [solve_of_valued checked executed rounded]
    exact concluded_of_value rfl rfl rfl (getLast?_append_of_some (Setup.last_execute executed)) rounded

/-- Where all constants are numbers and no places before the point are rounded away, a solution always
gives a value or leaves a fault, and its last event tells which, unless the fault is an unexpected one.
That one is told by no event: the last event is then the one before a call, and a name in the
expression is neither set apart by operators nor called. Neither the log nor a trace changes
what is given and left; a trace is told all events in order, with the log and without it. -/
theorem solve_concludes (session : Session) (numeric : session.setup.constants.Numeric)
    (nonnegative : 0 ≤ session.setup.style.places) (bindings : Bindings) (raw : Text) :
    session.Concluded bindings raw (session.solve bindings raw) ∧
    ∀ (debug : Bool) (σ : Type) (trace : Option (σ → Event → σ)) (kept : σ),
      ((session.logging debug).solve bindings raw).heard trace kept =
        ((session.solve bindings raw).outcome, (session.solve bindings raw).session.memory,
          trace.elim kept fun hear => (session.solve bindings raw).events.foldl hear kept) := by
  refine ⟨concluded_solve numeric nonnegative, fun debug σ trace kept => ?_⟩
  rw [solve_logging]
  rfl

/-- The absolute value of no number leaves an unexpected fault, and this is not announced. -/
theorem solve_concludes_twoHalves : Setup.standard.constants.Numeric ∧ 0 ≤ Setup.standard.style.places ∧
    ¬ (start Setup.standard).Announced (callText .abs twoHalves)
      ((start Setup.standard).solve [] (callText .abs twoHalves)) := by
  refine ⟨Constant.numeric_builtin, by decide, fun announced => ?_⟩
  obtain ⟨checked, r, executed, kind, _⟩ :=
    (Setup.standard.execute_checked []).2 .abs rfl
  have expected := (solve_concludes (start Setup.standard) Constant.numeric_builtin (by decide) []
    (callText .abs twoHalves)).1.announced.1 announced
  have failed := @solve_of_failed (start Setup.standard) [] (callText .abs twoHalves) _ r checked
    executed
  refine expected r ?_ kind
  rw [failed]

end Session
end Reckoner
