import Reckoner.Proofs.Evaluation.Wrapped
import Reckoner.Proofs.Session.Execution
import Reckoner.Session.Basic

set_option autoImplicit false

/- Solutions of expressions in parentheses. The check passes them, with the canonical form in
parentheses, and they have the value of the expression. But they also have one in some cases in which
the expression has none, where a name without a call stands next to a parenthesis. -/
namespace Reckoner

variable {session : Session} {setup : Setup} {bindings : Bindings} {raw t : Text} {v : Float}

/-- The solution of an expression has this value. -/
def Session.Solves (session : Session) (bindings : Bindings) (raw : Text) (v : Float) : Prop :=
  (session.solve bindings raw).outcome = .ok (some v)

/-- What passes the check passes it in parentheses. -/
theorem Setup.checked_wrapped (checked : (setup.checked raw).outcome = .ok t) :
    (setup.checked (wrapped raw)).outcome = .ok (wrapped t) := by
  have accepted := accepted_of_checked checked
  rw [checked_eq_ok_iff, canonical_wrapped, (checked_eq_ok_iff.1 checked).1]
  exact ⟨rfl, accepted.wrapped.checked⟩

/-- The execution has the value of the expression, if there is one. -/
theorem Setup.execute_eq_ok_iff {x : Float} : (setup.execute bindings raw t).outcome = .ok x ↔
    (solveExpression ⟨bindings, setup.angles⟩ t).outcome = .ok x := by
  unfold execute
  rw [Traced.outcome_handle]
  cases (solveExpression ⟨bindings, setup.angles⟩ t).outcome with
  | error e => cases e <;> exact iff_of_false nofun nofun
  | ok y => simp

/-- A solution is the rounded value of the canonical form. -/
theorem Session.solves_iff (checked : (session.setup.checked raw).outcome = .ok t) :
    session.Solves bindings raw v ↔
      ∃ x, (solveExpression ⟨bindings, session.setup.angles⟩ t).outcome = .ok x ∧
        Display.round session.setup.style.places x = .ok v := by
  have value (x : Float) : (solveExpression ⟨bindings, session.setup.angles⟩ t).outcome = .ok x ↔
      (session.setup.execute bindings raw t).outcome = .ok x := Setup.execute_eq_ok_iff.symm
  unfold Session.Solves Session.solve Setup.evaluate
  simp only [checked, value]
  cases executed : (session.setup.execute bindings raw t).outcome with
  | error r => simp
  | ok x => cases rounded : Display.round session.setup.style.places x <;> simp [rounded, Except.map]

/-- An expression that passes the check passes it in parentheses as well, with its canonical form in
parentheses. It has every solution that it has without them. It has others only where the canonical
form is read as a variable without a value, and none where no name stands next to a parenthesis but
those of functions that are called. For any two variables with a difference there is an expression
that has no solution without them. -/
theorem Session.solve_wrapped (session : Session) (bindings : Bindings)
    (names : NamesVariables bindings) :
    (∀ raw t, (session.setup.checked raw).outcome = .ok t →
      (session.setup.checked (wrapped raw)).outcome = .ok (wrapped t) ∧
      (∀ v, session.Solves bindings (wrapped raw) v ↔ session.Solves bindings raw v ∨
        ∃ x, ValuedAgain ⟨bindings, session.setup.angles⟩ t x ∧
          Display.round session.setup.style.places x = .ok v) ∧
      (NamesApart t → CallsFunctions ⟨bindings, session.setup.angles⟩ t →
        ∀ v, session.Solves bindings (wrapped raw) v ↔ session.Solves bindings raw v)) ∧
    ∀ raw (m n : Name) a b, (session.setup.checked raw).outcome = .ok (besideOpposite m n) →
      bindings.get? m.text = some (.number a) → bindings.get? n.text = some (.number b) →
      (a - b).isNaN = false →
        (∀ v, ¬ session.Solves bindings raw v) ∧
        ∀ v, session.Solves bindings (wrapped raw) v ↔
          Display.round session.setup.style.places (if a - b == 0 then 0 else a - b) = .ok v := by
  refine ⟨fun raw t checked => ?_, fun raw m n a b checked first second number => ?_⟩
  · have checked' := Setup.checked_wrapped checked
    have accepted := accepted_of_checked checked
    have again (v : Float) : session.Solves bindings (wrapped raw) v ↔
        session.Solves bindings raw v ∨ ∃ x, ValuedAgain ⟨bindings, session.setup.angles⟩ t x ∧
          Display.round session.setup.style.places x = .ok v := by
      simp only [solves_iff checked', solves_iff checked,
        accepted.balanced.solveExpression_wrapped_iff
          (show NamesVariables (Context.bindings ⟨bindings, session.setup.angles⟩) from names),
        or_and_right, exists_or]
    refine ⟨checked', again, fun apart calls v => ?_⟩
    rw [again, or_iff_left]
    rintro ⟨x, valued, _⟩
    exact accepted.not_valuedAgain apart calls valued
  · have names' : NamesVariables (Context.bindings ⟨bindings, session.setup.angles⟩) := names
    obtain ⟨failed, value⟩ := solveExpression_beside names' first second number
    simp only [solves_iff checked, solves_iff (Setup.checked_wrapped checked), failed, value]
    exact ⟨nofun, fun v => by simp⟩

def nameX : Name := .ofLetter 'x' rfl

def nameY : Name := .ofLetter 'y' rfl

/-- With five and three for the variables the expression has no solution, and in parentheses it is
two. Without the group both have the same solutions. -/
theorem Session.solve_wrapped_beside :
    (∀ v, ¬ (Session.start Setup.standard).Solves [(['x'], .number 5), (['y'], .number 3)]
      ['x', '(', '-', 'y', ')'] v) ∧
    (Session.start Setup.standard).Solves [(['x'], .number 5), (['y'], .number 3)]
      (wrapped ['x', '(', '-', 'y', ')']) 2 ∧
    ∀ v, (Session.start Setup.standard).Solves [(['x'], .number 5), (['y'], .number 3)]
      (wrapped ['x']) v ↔
        (Session.start Setup.standard).Solves [(['x'], .number 5), (['y'], .number 3)] ['x'] v := by
  have names : NamesVariables [(['x'], .number 5), (['y'], .number 3)] := by
    intro name bound
    have known : name = ['x'] ∨ name = ['y'] := by
      by_contra other
      rw [not_or] at other
      simp [Table.has, Table.get?_cons, other.1, other.2] at bound
    rcases known with rfl | rfl
    · exact ⟨nameX.nonempty, nameX.letters, nameX.notFunction⟩
    · exact ⟨nameY.nonempty, nameY.letters, nameY.notFunction⟩
  obtain ⟨alone, beside⟩ := Session.solve_wrapped (Session.start Setup.standard) _ names
  obtain ⟨failed, value⟩ := beside ['x', '(', '-', 'y', ')'] nameX nameY 5 3 (by decide +kernel)
    (by decide +kernel) (by decide +kernel) (by decide +kernel)
  refine ⟨failed, (value 2).2 (by decide +kernel), ?_⟩
  refine (alone ['x'] ['x'] (by decide +kernel)).2.2 (fun u c v shape => ?_) fun u w v shape => ?_
  · have inside : ')' ∈ ['x'] := by rw [shape]; simp
    exact absurd inside (by decide)
  · have inside : '(' ∈ ['x'] := by rw [shape]; simp
    exact absurd inside (by decide)

end Reckoner
