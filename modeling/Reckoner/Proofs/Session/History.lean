import Reckoner.Proofs.Session.Calls

set_option autoImplicit false

/- The history of a session: what it remembers after any number of calls and changes of its setup. The
result is that of the last computation. The fault is that of the last computation or check, so the
two are both there just when a check has refused an expression since a value was found. -/
namespace Reckoner

variable {session : Session}

def Setup.value? (setup : Setup) (bindings : Bindings) (raw : Text) : Option Float :=
  (setup.checked raw).outcome.toOption.bind fun t =>
    (setup.execute bindings raw t).outcome.toOption.bind fun x =>
      (Display.round setup.style.places x).toOption

namespace Session

inductive Action where
  | solve (bindings : Bindings) (raw : Text)
  | calculate (bindings : Bindings) (raw : Text)
  | evaluate (bindings : Bindings) (raw : Text)
  | check (raw : Text)
  | adjust (setup : Setup)

def after (session : Session) : Action → Session
  | .solve bindings raw => (session.solve bindings raw).session
  | .calculate bindings raw => (session.calculate bindings raw).session
  | .evaluate _ _ => session
  | .check raw => (session.check raw).session
  | .adjust setup => { session with setup }

def run (session : Session) (actions : List Action) : Session := actions.foldl after session

/-- What an action settles of what is remembered: a computation came to its end, with a value or
without one, or an expression was checked, and refused or not. -/
inductive Verdict where
  | computed (value : Option Float)
  | checked (refused : Bool)
  | silent

/-- What an action settles in a session. A solution that ends with a mishap settles nothing. -/
def verdict (session : Session) : Action → Verdict
  | .solve bindings raw =>
    match (session.solve bindings raw).outcome with
    | .ok value => .computed value
    | .error _ => .silent
  | .calculate bindings raw => .computed (session.setup.value? bindings raw)
  | .check raw => .checked ((session.check raw).outcome matches .ok false)
  | .evaluate _ _ => .silent
  | .adjust _ => .silent

def verdicts (session : Session) : List Action → List Verdict
  | [] => []
  | action :: actions => session.verdict action :: (session.after action).verdicts actions

theorem run_concat (session : Session) (actions : List Action) (action : Action) :
    session.run (actions ++ [action]) = (session.run actions).after action :=
  List.foldl_concat after session action actions

theorem verdicts_concat (session : Session) (actions : List Action) (action : Action) :
    session.verdicts (actions ++ [action]) =
      session.verdicts actions ++ [(session.run actions).verdict action] := by
  induction actions generalizing session with
  | nil => rfl
  | cons first actions ih => exact congrArg (session.verdict first :: ·) (ih (session.after first))

/-- The memory after an action, as far as its verdict tells. -/
def Verdict.Leaves (before after : Memory) : Verdict → Prop
  | .computed value => after.result = value ∧ (after.result ≠ none → after.fault = none)
  | .checked refused => after.result = before.result ∧ (after.fault ≠ none ↔ refused = true)
  | .silent => after = before

theorem leaves_solve (bindings : Bindings) (raw : Text) :
    (session.verdict (.solve bindings raw)).Leaves session.memory
      (session.after (.solve bindings raw)).memory := by
  unfold after verdict solve Setup.evaluate
  cases session.setup.ends bindings raw with
  | unread m checked =>
    simp only [checked]
    rfl
  | rejected r checked _ _ =>
    simp only [checked]
    exact ⟨rfl, nofun⟩
  | failed t r checked executed _ _ =>
    simp only [checked, executed]
    exact ⟨rfl, nofun⟩
  | valued t x checked executed =>
    simp only [checked, executed]
    cases Display.round session.setup.style.places x with
    | error m => rfl
    | ok y => exact ⟨rfl, fun _ => rfl⟩

theorem leaves_calculate (bindings : Bindings) (raw : Text) :
    (session.verdict (.calculate bindings raw)).Leaves session.memory
      (session.after (.calculate bindings raw)).memory := by
  unfold after verdict calculate Setup.value?
  cases session.setup.ends bindings raw with
  | unread m checked =>
    simp only [checked]
    exact ⟨rfl, nofun⟩
  | rejected r checked _ _ =>
    simp only [checked]
    exact ⟨rfl, nofun⟩
  | failed t r checked executed _ _ =>
    simp only [checked, Except.toOption, Option.bind_some, executed]
    exact ⟨rfl, nofun⟩
  | valued t x checked executed =>
    simp only [checked, Except.toOption, Option.bind_some, executed]
    cases Display.round session.setup.style.places x with
    | error m => exact ⟨rfl, nofun⟩
    | ok y => exact ⟨rfl, fun _ => rfl⟩

theorem leaves_check (raw : Text) :
    (session.verdict (.check raw)).Leaves session.memory (session.after (.check raw)).memory := by
  unfold after verdict check
  cases session.setup.ends [] raw with
  | unread m checked =>
    simp only [checked]
    exact ⟨rfl, by simp⟩
  | rejected r checked _ _ =>
    simp only [checked]
    exact ⟨rfl, by simp⟩
  | failed t r checked _ _ _ =>
    simp only [checked]
    exact ⟨rfl, by simp⟩
  | valued t x checked _ =>
    simp only [checked]
    exact ⟨rfl, by simp⟩

theorem leaves (session : Session) (action : Action) :
    (session.verdict action).Leaves session.memory (session.after action).memory := by
  cases action with
  | solve bindings raw => exact leaves_solve bindings raw
  | calculate bindings raw => exact leaves_calculate bindings raw
  | check raw => exact leaves_check raw
  | evaluate bindings raw => rfl
  | adjust setup => rfl

/-- Some verdict does this, with these before it, and all after it are still. -/
def Last (acts : List Verdict → Verdict → Prop) (still : Verdict → Prop) (said : List Verdict) :
    Prop :=
  ∃ before v later, said = before ++ v :: later ∧ acts before v ∧ ∀ w ∈ later, still w

theorem not_last_nil {acts : List Verdict → Verdict → Prop} {still : Verdict → Prop} :
    ¬ Last acts still [] := by
  intro ⟨before, v, later, same, _⟩
  exact absurd same.symm (by simp)

theorem last_concat {acts : List Verdict → Verdict → Prop} {still : Verdict → Prop}
    {said : List Verdict} {v : Verdict} :
    Last acts still (said ++ [v]) ↔ acts said v ∨ still v ∧ Last acts still said := by
  constructor
  · intro ⟨before, w, later, same, does, quiet⟩
    obtain rfl | ⟨later, u, rfl⟩ := List.eq_nil_or_concat later
    · obtain ⟨rfl, last⟩ := List.append_inj' same rfl
      cases last
      exact .inl does
    · rw [List.concat_eq_append, ← List.cons_append, ← List.append_assoc] at same
      obtain ⟨rfl, last⟩ := List.append_inj' same rfl
      cases last
      exact .inr ⟨quiet v (by simp), before, w, later, rfl, does,
        fun u member => quiet u (by simp [member])⟩
  · rintro (does | ⟨quiet, before, w, later, rfl, does, still⟩)
    · exact ⟨said, v, [], rfl, does, by simp⟩
    · refine ⟨before, w, later ++ [v], by simp, does, fun u member => ?_⟩
      rcases List.mem_append.1 member with inside | last
      · exact still u inside
      · cases List.mem_singleton.1 last
        exact quiet

/-- No computation came to its end. -/
def Verdict.Spares (v : Verdict) : Prop := ∀ y, v ≠ .computed y

theorem result_run_iff (setup : Setup) (actions : List Action) (x : Float) :
    ((start setup).run actions).memory.result = some x ↔
      Last (fun _ v => v = .computed (some x)) Verdict.Spares ((start setup).verdicts actions) := by
  induction actions using List.reverseRecOn with
  | nil => exact iff_of_false nofun not_last_nil
  | append_singleton actions action ih =>
    have left := ((start setup).run actions).leaves action
    rw [run_concat, verdicts_concat, last_concat, ← ih]
    generalize ((start setup).run actions).verdict action = v at left
    cases v with
    | computed y => simp [Verdict.Spares, left.1]
    | checked refused => simp [Verdict.Spares, left.1]
    | silent =>
      have same : _ = _ := left
      simp [Verdict.Spares, same]

/-- A check refused, and a value had been found before that no computation came after. -/
def Verdict.RefusesAfterValue (before : List Verdict) (v : Verdict) : Prop :=
  v = .checked true ∧ ∃ x, Last (fun _ v => v = .computed (some x)) Verdict.Spares before

theorem both_run_iff (setup : Setup) (actions : List Action) :
    ((start setup).run actions).memory.fault ≠ none ∧
        ((start setup).run actions).memory.result ≠ none ↔
      Last Verdict.RefusesAfterValue (fun v => v = .silent) ((start setup).verdicts actions) := by
  induction actions using List.reverseRecOn with
  | nil => exact iff_of_false (fun both => both.1 rfl) not_last_nil
  | append_singleton actions action ih =>
    have left := ((start setup).run actions).leaves action
    have found : ((start setup).run actions).memory.result ≠ none ↔
        ∃ x, Last (fun _ v => v = .computed (some x)) Verdict.Spares
          ((start setup).verdicts actions) := by
      simp only [← result_run_iff, Option.ne_none_iff_exists']
    rw [run_concat, verdicts_concat, last_concat, ← ih]
    generalize ((start setup).run actions).verdict action = v at left
    cases v with
    | computed y =>
      refine iff_of_false (fun both => both.1 (left.2 both.2)) ?_
      simp [Verdict.RefusesAfterValue]
    | checked refused => simp [Verdict.RefusesAfterValue, left.1, left.2, ← found]
    | silent =>
      have same : _ = _ := left
      simp [Verdict.RefusesAfterValue, same]

/-- After any calls and changes of the setup, the result is the value of the last computation that
came to its end, and there is none if that had no value. A fault is remembered beside it just when an
expression was refused since, and nothing but evaluations without memory, changes of the setup and
solutions that ended with a mishap came after the refusal. -/
theorem fault_and_result_iff (setup : Setup) (actions : List Action) :
    (∀ x, ((start setup).run actions).memory.result = some x ↔
      ∃ before later, (start setup).verdicts actions = before ++ .computed (some x) :: later ∧
        ∀ v ∈ later, v.Spares) ∧
    (((start setup).run actions).memory.fault ≠ none ∧
        ((start setup).run actions).memory.result ≠ none ↔
      ∃ before x between later, (start setup).verdicts actions =
          before ++ .computed (some x) :: (between ++ .checked true :: later) ∧
        (∀ v ∈ between, v.Spares) ∧ ∀ v ∈ later, v = .silent) := by
  constructor
  · intro x
    rw [result_run_iff]
    constructor
    · rintro ⟨before, _, later, said, rfl, spares⟩
      exact ⟨before, later, said, spares⟩
    · rintro ⟨before, later, said, spares⟩
      exact ⟨before, _, later, said, rfl, spares⟩
  · rw [both_run_iff]
    constructor
    · rintro ⟨_, _, later, said, ⟨rfl, x, before, _, between, rfl, rfl, spares⟩, silent⟩
      rw [List.append_assoc, List.cons_append] at said
      exact ⟨before, x, between, later, said, spares, silent⟩
    · rintro ⟨before, x, between, later, said, spares, silent⟩
      rw [← List.cons_append, ← List.append_assoc] at said
      exact ⟨_, _, later, said, ⟨rfl, x, before, _, between, rfl, rfl, spares⟩, silent⟩

end Session

end Reckoner
