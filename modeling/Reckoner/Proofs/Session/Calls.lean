import Reckoner.Proofs.Decimal.Places
import Reckoner.Proofs.Evaluation.Faults
import Reckoner.Proofs.Expression.Constants
import Reckoner.Proofs.Expression.Language
import Reckoner.Proofs.Session.Execution
import Reckoner.Session.Basic

set_option autoImplicit false

namespace Reckoner

variable {setup : Setup} {session : Session} {bindings : Bindings} {raw t : Text} {x : Float}
  {style : Display.Style} {places : Int} {r : Report} {m : Mishap}

namespace Display

theorem exists_round (nonnegative : 0 ≤ places) (x : Float) :
    ∃ y, round places x = .ok y ∧ (x.isFinite = true → y.isFinite = true) := by
  unfold round
  by_cases finite : x.isFinite = true
  · obtain ⟨y, rounded, finite'⟩ := Double.exists_roundTo? nonnegative finite
    rw [if_pos finite, rounded]
    exact ⟨y, rfl, fun _ => finite'⟩
  · rw [if_neg finite]
    exact ⟨x, rfl, id⟩

theorem exists_fraction (nonnegative : 0 ≤ places) (finite : x.isFinite = true) :
    ∃ text, fraction places x = .ok text := by
  have bound := Double.isFinite_iff.1 finite
  have number : x.isNaN = false := Double.isNaN_eq_false_iff.2 (Nat.le_of_lt bound)
  have limited : ¬ x.isInf = true := fun infinite => Nat.ne_of_lt bound (Double.isInf_iff.1 infinite)
  obtain ⟨back, rounded, _⟩ := exists_round nonnegative (Double.ofRatio
    (Fraction.limitDenominator maxDenominator (Double.toRat x)).num
    (Fraction.limitDenominator maxDenominator (Double.toRat x)).den)
  unfold fraction
  rw [number, if_neg Bool.false_ne_true, if_neg limited]
  simp only [rounded]
  exact ⟨_, rfl⟩

/-- Where no place before the point is rounded away, every result can be shown. -/
theorem exists_line (nonnegative : 0 ≤ style.places) (x : Float) : ∃ text, line style x = .ok text := by
  have shown : ∃ text, result style x = .ok text := by
    unfold result
    by_cases finite : x.isFinite = true
    · obtain ⟨y, rounded, finite'⟩ := exists_round nonnegative x
      obtain ⟨text, fraction⟩ := exists_fraction nonnegative (finite' finite)
      simp only [finite, rounded, bind, Except.bind, Bool.not_true, Bool.false_eq_true, if_false]
      by_cases asked : (style.fractions && !Double.isWhole y) = true
      · simp only [if_pos asked, fraction]
        cases text <;> exact ⟨_, rfl⟩
      · simp only [if_neg asked]
        exact ⟨_, rfl⟩
    · simp only [finite]
      exact ⟨_, rfl⟩
  obtain ⟨⟨text, rounded⟩, shown⟩ := shown
  unfold line
  rw [shown]
  exact ⟨_, rfl⟩

end Display

namespace Setup

/-- Where the way of an expression ends. -/
inductive Ends (setup : Setup) (bindings : Bindings) (raw : Text) : Prop where
  | unread (m : Mishap) (checked : (setup.checked raw).outcome = .error (.mishap m))
  | rejected (r : Report) (checked : (setup.checked raw).outcome = .error (.fault r))
    (equation : r.equation = some raw) (family : r.family = .syntactic)
  | failed (t : Text) (r : Report) (checked : (setup.checked raw).outcome = .ok t)
    (executed : (setup.execute bindings raw t).outcome = .error r)
    (equation : r.equation = some raw) (family : r.family ≠ .syntactic)
  | valued (t : Text) (x : Float) (checked : (setup.checked raw).outcome = .ok t)
    (executed : (setup.execute bindings raw t).outcome = .ok x)

theorem family_of_rejected {f : Fault} (rejected : Rejected t f.kind) :
    f.kind.family = .syntactic := by
  generalize f.kind = kind at rejected
  cases rejected <;> rfl

theorem family_of_mishap (m : Mishap) : m.asFault.kind.family ≠ .syntactic := by
  unfold Mishap.asFault
  split <;> exact nofun

/-- An expression has no canonical form just when a run in it names a value that is no number. -/
theorem unread_iff : (∃ m, (setup.checked raw).outcome = .error (.mishap m)) ↔
    ∃ name, IsRun isConstantChar raw name ∧ setup.constants.Spoils name := by
  rw [outcome_checked, canonical_outcome, ← replaceConstants_eq_error_iff]
  cases replaceConstants setup.constants raw with
  | error m => simp [Except.map, Except.mapError, Except.bind]
  | ok t =>
    simp only [Except.map, Except.mapError, Except.bind]
    cases (check (canonicalOfNamed t)).outcome <;> simp

/-- Constants that are all numbers are never unread. -/
theorem not_unread (numeric : setup.constants.Numeric) (raw : Text) (m : Mishap) :
    (setup.checked raw).outcome ≠ .error (.mishap m) := by
  intro checked
  obtain ⟨name, _, value, m', found, failed⟩ := unread_iff.1 ⟨m, checked⟩
  obtain ⟨y, number⟩ := numeric name value found
  rw [number] at failed
  contradiction

theorem ends (setup : Setup) (bindings : Bindings) (raw : Text) : setup.Ends bindings raw := by
  cases written : (canonical setup.constants raw).outcome with
  | error m =>
    refine .unread m ?_
    rw [outcome_checked, written]
    rfl
  | ok t =>
    cases passed : (check t).outcome with
    | error f =>
      refine .rejected (f.report (some raw)) ?_ rfl (family_of_rejected (rejected_of_error passed))
      rw [outcome_checked, written]
      simp only [Except.mapError, Except.bind, passed]
    | ok _ =>
      have checked : (setup.checked raw).outcome = .ok t := checked_eq_ok_iff.2 ⟨written, passed⟩
      cases evaluated : (solveExpression ⟨bindings, setup.angles⟩ t).outcome with
      | ok x =>
        refine .valued t x checked ?_
        unfold execute
        rw [Traced.outcome_handle, evaluated]
      | error e =>
        have execution := ofExecution_of_solveExpression evaluated
        cases e with
        | fault f =>
          refine .failed t (f.report (some raw)) checked ?_ rfl ?_
          · unfold execute
            rw [Traced.outcome_handle, evaluated]
            rfl
          · have family : f.kind.family = .execution := execution
            show f.kind.family ≠ .syntactic
            rw [family]
            exact nofun
        | mishap m =>
          refine .failed t (m.asFault.report (some raw)) checked ?_ rfl (family_of_mishap m)
          unfold execute
          rw [Traced.outcome_handle, evaluated]
          rfl

end Setup

namespace Session

/-- What the calls of a session on one expression give and leave, where this is the memory after a
solution, and where the check passes the expression or not. -/
structure Concur (session : Session) (bindings : Bindings) (raw : Text) (memory : Memory)
    (passes : Bool) : Prop where
  evaluate : (session.setup.evaluate bindings raw).outcome =
    .ok ⟨memory.result, if passes then memory.expression else none, memory.fault⟩
  solve : (session.solve bindings raw).outcome = .ok memory.result ∧
    (session.solve bindings raw).session.memory = memory
  calculate : (session.calculate bindings raw).session.memory = memory
  text : memory.fault = none → ∃ text, (session.calculate bindings raw).outcome = .ok text
  error : ∀ r, memory.fault = some r → (session.calculate bindings raw).outcome = .error (.fault r)
  check : (session.check raw).outcome = .ok passes ∧ (session.check raw).session.memory =
    ⟨memory.expression, session.memory.bindings, if passes then none else memory.fault,
      session.memory.result⟩
  equation : ∀ r, memory.fault = some r → r.equation = some raw
  family : passes = false ↔ ∃ r, memory.fault = some r ∧ r.family = .syntactic
  expression : memory.expression ≠ none

theorem concur_of_rejected (checked : (session.setup.checked raw).outcome = .error (.fault r))
    (equation : r.equation = some raw) (family : r.family = .syntactic) :
    session.Concur bindings raw ⟨some raw, bindings, some r, none⟩ false := by
  have evaluated : (session.setup.evaluate bindings raw).outcome = .ok ⟨none, none, some r⟩ := by
    unfold Setup.evaluate
    simp only [checked]
  constructor
  · exact evaluated
  · unfold solve
    simp only [evaluated, Option.getD_none, and_self]
  · unfold calculate
    simp only [checked, Refusal.report?]
  · exact nofun
  · rintro r' ⟨⟩
    unfold calculate
    simp only [checked]
  · unfold check
    simp only [checked, Bool.false_eq_true, if_false, and_self]
  · rintro r' ⟨⟩
    exact equation
  · exact ⟨fun _ => ⟨r, rfl, family⟩, fun _ => rfl⟩
  · exact nofun

theorem concur_of_failed (checked : (session.setup.checked raw).outcome = .ok t)
    (executed : (session.setup.execute bindings raw t).outcome = .error r)
    (equation : r.equation = some raw) (family : r.family ≠ .syntactic) :
    session.Concur bindings raw ⟨some t, bindings, some r, none⟩ true := by
  have evaluated : (session.setup.evaluate bindings raw).outcome = .ok ⟨none, some t, some r⟩ := by
    unfold Setup.evaluate
    simp only [checked, executed]
  constructor
  · exact evaluated
  · unfold solve
    simp only [evaluated, Option.getD_some, and_self]
  · unfold calculate
    simp only [checked, executed]
  · exact nofun
  · rintro r' ⟨⟩
    unfold calculate
    simp only [checked, executed]
  · unfold check
    simp only [checked, if_true, and_self]
  · rintro r' ⟨⟩
    exact equation
  · refine ⟨nofun, ?_⟩
    rintro ⟨r', ⟨⟩, syntactic⟩
    exact absurd syntactic family
  · exact nofun

theorem concur_of_valued (nonnegative : 0 ≤ session.setup.style.places)
    (checked : (session.setup.checked raw).outcome = .ok t)
    (executed : (session.setup.execute bindings raw t).outcome = .ok x) :
    ∃ y, session.Concur bindings raw ⟨some t, bindings, none, some y⟩ true := by
  obtain ⟨y, rounded, _⟩ := Display.exists_round nonnegative x
  obtain ⟨text, shown⟩ := Display.exists_line nonnegative x
  have evaluated : (session.setup.evaluate bindings raw).outcome = .ok ⟨some y, some t, none⟩ := by
    unfold Setup.evaluate
    simp only [checked, executed, rounded]
    rfl
  refine ⟨y, ?_⟩
  constructor
  · exact evaluated
  · unfold solve
    simp only [evaluated, Option.getD_some, and_self]
  · unfold calculate
    simp only [checked, executed, rounded]
  · refine fun _ => ⟨text, ?_⟩
    unfold calculate
    simp only [checked, executed, rounded, shown]
    rfl
  · exact nofun
  · unfold check
    simp only [checked, if_true, and_self]
  · exact nofun
  · exact ⟨nofun, nofun⟩
  · exact nofun

/-- What it is for the calls of a session on one expression to agree: a calculation ends as a solution
does and leaves the same memory, and a check finds just those faults of a solution that lie in how the
expression is written. -/
structure Agree (session : Session) (bindings : Bindings) (raw : Text) : Prop where
  solved : (session.solve bindings raw).outcome =
    .ok (session.solve bindings raw).session.memory.result
  text : (∃ text, (session.calculate bindings raw).outcome = .ok text) ↔
    (session.solve bindings raw).session.memory.fault = none
  fault : ∀ r, (session.solve bindings raw).session.memory.fault = some r →
    (session.calculate bindings raw).outcome = .error (.fault r)
  memory : (session.calculate bindings raw).session.memory =
    (session.solve bindings raw).session.memory
  refuses : (session.check raw).outcome = .ok false ↔
    ∃ r, (session.solve bindings raw).session.memory.fault = some r ∧ r.family = .syntactic
  passes : (session.check raw).outcome = .ok false ∨ (session.check raw).outcome = .ok true
  found : (session.check raw).outcome = .ok false → (session.check raw).session.memory.fault =
    (session.solve bindings raw).session.memory.fault
  expression : (session.check raw).session.memory.expression =
    (session.solve bindings raw).session.memory.expression
  equation : ∀ r, (session.solve bindings raw).session.memory.fault = some r ∨
    (session.calculate bindings raw).session.memory.fault = some r ∨
    (session.check raw).session.memory.fault = some r → r.equation = some raw
  canonical : ∃ e, (session.setup.evaluate bindings raw).outcome = .ok e ∧
    (e.canonical = none ↔ ∃ r, e.fault = some r ∧ r.family = .syntactic) ∧
    ∀ r, e.fault = some r → r.equation = some raw

theorem Concur.agree {memory : Memory} {passes : Bool}
    (h : session.Concur bindings raw memory passes) : session.Agree bindings raw := by
  have left := h.solve.2
  have checked : (session.check raw).session.memory.fault = if passes then none else memory.fault := by
    rw [h.check.2]
  constructor
  · rw [left, h.solve.1]
  · rw [left]
    refine ⟨fun ⟨text, given⟩ => ?_, h.text⟩
    cases fault : memory.fault with
    | none => rfl
    | some r =>
      rw [h.error r fault] at given
      contradiction
  · rw [left]
    exact h.error
  · rw [left, h.calculate]
  · rw [left, h.check.1, ← h.family, Except.ok.injEq]
  · rw [h.check.1]
    cases passes with
    | false => exact .inl rfl
    | true => exact .inr rfl
  · rw [left, checked, h.check.1]
    rintro ⟨⟩
    rfl
  · rw [left, h.check.2]
  · rw [left, h.calculate, checked]
    intro r found
    apply h.equation r
    rcases found with solved | calculated | refused
    · exact solved
    · exact calculated
    · cases passes with
      | false => exact refused
      | true => contradiction
  · refine ⟨_, h.evaluate, ?_, h.equation⟩
    rw [← h.family]
    have expression := h.expression
    cases passes with
    | false => exact ⟨fun _ => rfl, fun _ => rfl⟩
    | true => exact ⟨fun none => absurd none expression, nofun⟩

/-- Where all constants are numbers and no places before the point are rounded away, every expression
leaves a memory that all calls agree on. -/
theorem exists_concur (numeric : session.setup.constants.Numeric)
    (nonnegative : 0 ≤ session.setup.style.places) (bindings : Bindings) (raw : Text) :
    ∃ memory passes, session.Concur bindings raw memory passes := by
  cases session.setup.ends bindings raw with
  | unread m checked => exact absurd checked (Setup.not_unread numeric raw m)
  | rejected r checked equation family => exact ⟨_, _, concur_of_rejected checked equation family⟩
  | failed t r checked executed equation family =>
    exact ⟨_, _, concur_of_failed checked executed equation family⟩
  | valued t x checked executed =>
    obtain ⟨y, concur⟩ := concur_of_valued nonnegative checked executed
    exact ⟨_, _, concur⟩

/-- The calls of a session on one expression agree, whatever was called before, where all constants are
numbers and no places before the point are rounded away. -/
theorem calls_agree (session : Session) (numeric : session.setup.constants.Numeric)
    (nonnegative : 0 ≤ session.setup.style.places) (bindings : Bindings) (raw : Text) :
    session.Agree bindings raw := by
  obtain ⟨memory, passes, concur⟩ := exists_concur numeric nonnegative bindings raw
  exact concur.agree

/-- They agree on a third, in a session that nothing was asked of. -/
theorem calls_agree_third : Setup.standard.constants.Numeric ∧ 0 ≤ Setup.standard.style.places ∧
    (Session.start Setup.standard).Agree [] ['1', '/', '3'] :=
  ⟨Constant.numeric_builtin, by decide, calls_agree (Session.start Setup.standard)
    Constant.numeric_builtin (by decide) [] ['1', '/', '3']⟩

end Session

end Reckoner
