import Reckoner.Proofs.Evaluation.Swap.Search
import Reckoner.Proofs.Outcome

set_option autoImplicit false

namespace Reckoner

open Double

variable {context : Context} {pair : Text → Text → Prop} {p q : Place} {t u o o' : Text} {x : Float}

theorem settles_plain (number : x.isNaN = false) : Settles (plain x) := by
  have size := (isTame_sizeText (magnitude x)).row
  rw [plain_eq number]
  refine ⟨List.append_ne_nil_of_right_ne_nil _ size.1, fun p => ?_⟩
  have both : p.run (valueSign x ++ sizeText (magnitude x)) =
      (p.run (valueSign x)).run (sizeText (magnitude x)) := List.foldl_append
  rw [both, Place.run_row size]

section Operands

variable (values : ∀ {o o'}, pair o o' → ∃ x, Denotes context o x ∧ Denotes context o' x)

include values

theorem operands_of_values {o o' : Text} (h : pair o o') : IsOperand o ∧ IsOperand o' := by
  obtain ⟨x, left, right⟩ := values h
  exact ⟨left.tame.operand, right.tame.operand⟩

/-- Corresponding operands have the same value. -/
theorem Corresponds.resolve (h : Corresponds pair o o') :
    resolveOperand context o = resolveOperand context o' ∧
      isNegatedNaN context.bindings o = isNegatedNaN context.bindings o' := by
  cases h with
  | same => exact ⟨rfl, rfl⟩
  | swap sign h =>
    obtain ⟨x, left, right⟩ := values h
    obtain ⟨value, negated⟩ := left.resolve sign
    obtain ⟨value', negated'⟩ := right.resolve sign
    rw [value, value', negated, negated']
    exact ⟨rfl, rfl⟩

theorem Corresponds.solve {a b : Operation} (operator : a.operator = b.operator)
    (left : Corresponds pair a.left b.left) (right : Corresponds pair a.right b.right) :
    a.solve context = b.solve context := by
  obtain ⟨value, negated⟩ := left.resolve values
  obtain ⟨value', _⟩ := right.resolve values
  unfold Operation.solve Operation.dividesNegatedNaN
  rw [value, value', negated, operator]

/-- The operations of a rank are the same ones in both texts, and their values leave texts that
differ in exchanged operands only. -/
theorem Swapped.solveRank (h : Swapped pair .start t u q) (rank : Rank) :
    Matches (fun t u => ∃ q, Swapped pair .start t u q) (Reckoner.solveRank context rank t).outcome
      (Reckoner.solveRank context rank u).outcome := by
  induction runs : operandRuns false t using Nat.strongRecOn generalizing t u q with
  | ind n ih =>
  rcases h.findOperation? (operands_of_values values) rank Place.noConfusion with
    ⟨none, none'⟩ | ⟨front, front', operation, operation', back, back', found, found', operator, left,
      right, splice⟩
  · rw [solveRank_of_none none, solveRank_of_none none']
    exact ⟨q, h⟩
  · rw [solveRank_of_some found, solveRank_of_some found',
      Corresponds.solve values operator left right]
    cases value : operation'.solve context with
    | error e => exact .error e e
    | ok x =>
      have number := Operation.solve_number value
      obtain ⟨q', after⟩ := splice (plain x) (settles_plain number)
      obtain ⟨q'', reduced⟩ := after.reduceSigns (operands_of_values values)
      have fewer := operandRuns_solved_lt found x
      rw [runs] at fewer
      rw [← List.append_assoc, ← List.append_assoc] at reduced
      exact ih _ fewer reduced rfl

theorem Swapped.solveOperations (h : Swapped pair .start t u q) :
    Matches (fun t u => ∃ q, Swapped pair .start t u q) (Reckoner.solveOperations context t).outcome
      (Reckoner.solveOperations context u).outcome := by
  rw [solveOperations_outcome, solveOperations_outcome]
  refine (h.solveRank values .power).bind fun t u ⟨_, h⟩ => ?_
  refine (h.solveRank values .product).bind fun t u ⟨_, h⟩ => ?_
  exact h.solveRank values .sum

end Operands

/-- Texts that differ in the marks of operands only are the same without marks. -/
theorem Swapped.stripMarks (h : Swapped pair p t u q)
    (marks : ∀ {o o'}, pair o o' → Reckoner.stripMarks o = Reckoner.stripMarks o') :
    Reckoner.stripMarks t = Reckoner.stripMarks u := by
  induction h with
  | nil p => rfl
  | @char _ _ c t u _ _ ih =>
    have both := stripMarks_append [c]
    rw [← List.singleton_append, both, ih, ← both, List.singleton_append]
  | swap _ same _ ih => rw [stripMarks_append, stripMarks_append, marks same, ih]

end Reckoner
