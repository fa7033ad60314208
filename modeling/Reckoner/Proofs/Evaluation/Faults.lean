import Reckoner.Proofs.Evaluation.Calls
import Reckoner.Proofs.Evaluation.Groups
import Reckoner.Proofs.Evaluation.Links
import Reckoner.Proofs.Outcome

set_option autoImplicit false

namespace Reckoner

/-- A fault of execution, or an argument that is no number. -/
def Failure.ofExecution : Failure → Prop
  | .fault f => f.kind.family = .execution
  | .mishap m => ∃ t : Text, m = .notANumber t ∧ Numeral.literal? t = none

variable {context : Context} {t name argument : Text} {x y : Float} {f : Fault} {e : Failure}
  {operator : Operator} {rank : Rank}

theorem kind_of_operate (failed : operate operator x y = .error f) : f.kind = .domain := by
  cases operator with
  | root =>
    unfold operate root rootBy at failed
    dsimp only at failed
    repeat' split at failed
    all_goals cases failed
    all_goals rfl
  | power =>
    unfold operate power powerBy at failed
    dsimp only at failed
    repeat' split at failed
    all_goals cases failed
    all_goals rfl
  | _ => cases failed

theorem kind_of_resolveOperand (failed : resolveOperand context t = .error f) :
    f.kind = .unknownVariable := by
  unfold resolveOperand at failed
  dsimp only at failed
  split at failed
  · contradiction
  · split at failed
    · contradiction
    · cases failed
      rfl

theorem family_of_solve {operation : Operation} (failed : operation.solve context = .error f) :
    f.kind.family = .execution := by
  unfold Operation.solve at failed
  rcases bind_eq_error failed with left | ⟨x, _, failed⟩
  · rw [kind_of_resolveOperand left]
    rfl
  rcases bind_eq_error failed with right | ⟨y, _, failed⟩
  · rw [kind_of_resolveOperand right]
    rfl
  rcases bind_eq_error failed with result | ⟨z, _, failed⟩
  · rw [kind_of_operate result]
    rfl
  · split at failed
    · cases failed
      rfl
    · contradiction

theorem kind_of_apply {mode : AngleMode} {function : Function}
    (failed : function.apply mode x = .error f) : f.kind = .domain := by
  cases function with
  | fact =>
    unfold Function.apply Function.factorial at failed
    dsimp only at failed
    repeat' split at failed
    all_goals cases failed
    all_goals rfl
  | _ =>
    unfold Function.apply at failed
    dsimp only at failed
    repeat' split at failed
    all_goals cases failed
    all_goals rfl

theorem ofExecution_of_solveCall (failed : solveCall context name argument = .error e) :
    e.ofExecution := by
  unfold solveCall at failed
  split at failed
  · cases failed
    rfl
  · split at failed
    next missed =>
      cases failed
      exact ⟨_, rfl, missed⟩
    · split at failed
      next g result =>
        cases failed
        change g.kind.family = _
        rw [kind_of_apply result]
        rfl
      · split at failed
        · cases failed
          rfl
        · contradiction

theorem ofExecution_of_solveCalls {done rest : Text}
    (failed : (solveCalls context done rest).outcome = .error e) : e.ofExecution := by
  induction rest using calls_induction generalizing done with
  | letterless t bare =>
    rw [solveCalls_of_letterless bare] at failed
    contradiction
  | named p name t bare nonempty letters stop missed ih =>
    rw [solveCalls_of_name bare nonempty letters stop missed] at failed
    split at failed
    · cases failed
      rfl
    · exact ih failed
  | called p name t argument tail bare nonempty letters stop found ih ihInfinite =>
    rw [solveCalls_of_call bare nonempty letters stop found] at failed
    rcases bind_eq_error failed with result | ⟨x, _, failed⟩
    · exact ofExecution_of_solveCall result
    · split at failed
      · exact ihInfinite failed
      · exact ih failed

theorem family_of_solveRank (failed : (solveRank context rank t).outcome = .error f) :
    f.kind.family = .execution := by
  fun_induction solveRank context rank t with
  | case1 => contradiction
  | case2 t before operation after found ih =>
    rw [Traced.outcome_bind, Traced.outcome_ofExcept] at failed
    rcases bind_eq_error failed with result | ⟨x, _, behind⟩
    · exact family_of_solve result
    · exact ih x behind

theorem family_of_solveOperations (failed : (solveOperations context t).outcome = .error f) :
    f.kind.family = .execution := by
  unfold solveOperations at failed
  generalize Rank.all = ranks at failed
  induction ranks generalizing t with
  | nil => contradiction
  | cons rank ranks ih =>
    rw [List.foldlM_cons, Traced.outcome_bind] at failed
    rcases bind_eq_error failed with result | ⟨u, _, behind⟩
    · exact family_of_solveRank result
    · exact ih behind

theorem ofExecution_of_solveSegment (failed : (solveSegment context t).outcome = .error e) :
    e.ofExecution := by
  rw [solveSegment_outcome] at failed
  rcases bind_eq_error failed with calls | ⟨u, _, failed⟩
  · exact ofExecution_of_solveCalls calls
  · obtain ⟨g, operations, rfl⟩ := mapError_eq_error (map_eq_error.1 failed)
    exact family_of_solveOperations operations

theorem ofExecution_of_solveGroups {outer : List Text} {inner rest : Text}
    (failed : (solveGroups context outer inner rest).outcome = .error e) : e.ofExecution := by
  fun_induction solveGroups context outer inner rest with
  | case1 => contradiction
  | case2 _ _ _ ih => exact ih failed
  | case3 outer inner r _ ih =>
    rw [Traced.outcome_bind, Traced.outcome_emit] at failed
    simp only [Except.bind, Traced.outcome_bind] at failed
    rcases bind_eq_error failed with segment | ⟨value, _, behind⟩
    · exact ofExecution_of_solveSegment segment
    · cases outer with
      | nil => contradiction
      | cons beginning outer => exact ih value beginning outer behind
  | case4 _ _ _ _ _ _ ih => exact ih failed

/-- What ends an evaluation is a fault of execution, or an argument that is no number. -/
theorem ofExecution_of_solveExpression (failed : (solveExpression context t).outcome = .error e) :
    e.ofExecution := by
  rw [solveExpression_outcome] at failed
  rcases bind_eq_error failed with groups | ⟨u, _, failed⟩
  · exact ofExecution_of_solveGroups groups
  · obtain ⟨g, result, rfl⟩ := mapError_eq_error failed
    change g.kind.family = _
    rw [kind_of_resolveOperand result]
    rfl

end Reckoner
