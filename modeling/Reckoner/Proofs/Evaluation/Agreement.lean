import Reckoner.Proofs.Evaluation.Callable

set_option autoImplicit false

namespace Reckoner

open Double

/-- The contexts differ at most in what this variable stands for. -/
structure AgreeBeside (x : Name) (context context' : Context) : Prop where
  angles : context.angles = context'.angles
  bindings : ∀ y, y ≠ x.text → context.bindings.get? y = context'.bindings.get? y

/-- An operand other than this variable. -/
def IsOther (x : Name) (o : Text) : Prop := IsRow (operandRow o) ∧ operandRow o ≠ x.text

variable {context context' : Context} {x : Name} {ranks : List Rank} {os : List Text}
  {rank : Rank} {ls : List Link} {t u o r : Text}

theorem IsWritten.ne_name (h : IsWritten r) (x : Name) : r ≠ x.text := by
  rintro rfl
  obtain ⟨y, number, same⟩ := h
  have value : Numeral.literal? (sizeText (magnitude y)) = some _ :=
    Numeral.literal?_sizeText (isNaN_eq_false_iff.1 number)
      (Numeral.splitSign_of_no_sign (Numeral.sizeText_startsWith _))
  rw [← same, x.literal?_text] at value
  contradiction

theorem IsWritten.isOther (h : IsWritten r) (x : Name) : IsOther x r := by
  unfold IsOther
  rw [operandRow_row h.isWord.row]
  exact ⟨h.isWord.row, h.ne_name x⟩

/-- Solving operations leaves no operand that is the variable, if there was none. -/
theorem Spliced.isOther {ranks' : List Rank} {os' : List Text} (h : Spliced ranks os ranks' os')
    (others : ∀ o ∈ os, IsOther x o) : ∀ o ∈ os', IsOther x o := fun o member =>
  (h.operands o member).elim (others o) fun written => written.isOther x

namespace AgreeBeside

variable (agree : AgreeBeside x context context')

include agree

theorem has (f : Function) : context.bindings.has f.name = context'.bindings.has f.name := by
  unfold Table.has
  rw [agree.bindings _ (x.ne_function f)]

/-- The calls do not depend on the variable, since it is no function. -/
theorem solveCalls (done t : Text) :
    (Reckoner.solveCalls context done t).outcome =
      (Reckoner.solveCalls context' done t).outcome := by
  have call (name argument : Text) :
      solveCall context name argument = solveCall context' name argument := by
    unfold solveCall
    rw [agree.angles]
  have missing (name : Text) : ((Function.ofName? name).isSome && !context.bindings.has name) =
      ((Function.ofName? name).isSome && !context'.bindings.has name) := by
    cases found : Function.ofName? name with
    | none => rfl
    | some f => rw [← Function.name_of_ofName? found, agree.has f]
  induction t using calls_induction generalizing done with
  | letterless t bare => rw [solveCalls_of_letterless bare, solveCalls_of_letterless bare]
  | named p name t bare nonempty letters stop missed ih =>
    rw [solveCalls_of_name bare nonempty letters stop missed,
      solveCalls_of_name bare nonempty letters stop missed, missing]
    split
    · rfl
    · exact ih _
  | called p name t argument tail bare nonempty letters stop found ih ihInfinite =>
    rw [solveCalls_of_call bare nonempty letters stop found,
      solveCalls_of_call bare nonempty letters stop found, call]
    cases solveCall context' name argument with
    | error e => simp only [Except.bind]
    | ok y =>
      simp only [Except.bind]
      split
      · exact ihInfinite _
      · exact ih _

/-- Other operands are looked up alike. -/
theorem resolve (other : IsOther x o) (signs : ∀ c ∈ t, isSign c = true) :
    resolveOperand context (t ++ o) = resolveOperand context' (t ++ o) ∧
      isNegatedNaN context.bindings (t ++ o) = isNegatedNaN context'.bindings (t ++ o) := by
  have lead := isLead_reduceSigns (List.forall_mem_append.2
    ⟨signs, fun c => List.all_eq_true.1 (List.all_takeWhile (l := stripMarks o)) c⟩)
  have same := agree.bindings _ other.2
  unfold resolveOperand isNegatedNaN
  rw [bareOperand_signs signs other.1]
  simp only [signedName_lead lead other.1, same, and_self]

theorem solve {operation : Operation} (others : ∀ o ∈ os, IsOther x o)
    (left : IsSigned os operation.left) (right : IsSigned os operation.right) :
    operation.solve context = operation.solve context' := by
  obtain ⟨s, signs, o, member, first⟩ := left
  obtain ⟨s', signs', o', member', second⟩ := right
  obtain ⟨value, negated⟩ := agree.resolve (others o member) signs
  obtain ⟨value', _⟩ := agree.resolve (others o' member') signs'
  unfold Operation.solve Operation.dividesNegatedNaN
  rw [first, second, value, value', negated]

theorem solveRank (h : Alternates ranks os t) (others : ∀ o ∈ os, IsOther x o) :
    (Reckoner.solveRank context rank t).outcome = (Reckoner.solveRank context' rank t).outcome := by
  induction size : operandRuns false t using Nat.strongRecOn generalizing t ranks os with
  | ind n ih =>
    subst size
    rcases h.search rank with ⟨missed, _⟩ | ⟨before, operation, after, found, left, right, spliced⟩
    · rw [solveRank_of_none missed, solveRank_of_none missed]
    · rw [solveRank_of_some found, solveRank_of_some found, agree.solve others left right]
      cases value : operation.solve context' with
      | error e => simp only [Except.bind]
      | ok y =>
        simp only [Except.bind]
        obtain ⟨ranks', os', step, alternates⟩ := spliced y (Operation.solve_number value)
        exact ih _ (operandRuns_solved_lt found y) alternates (step.isOther others) rfl

/-- The operations do not depend on the variable, where no operand is its name. -/
theorem solveOperations (h : Alternates ranks os t) (others : ∀ o ∈ os, IsOther x o) :
    (Reckoner.solveOperations context t).outcome =
      (Reckoner.solveOperations context' t).outcome := by
  have next {rank : Rank} {ranks : List Rank} {os : List Text} {t u : Text}
      (h : Alternates ranks os t) (others : ∀ o ∈ os, IsOther x o)
      (solved : (Reckoner.solveRank context' rank t).outcome = .ok u) :
      ∃ ranks' os', Alternates ranks' os' u ∧ ∀ o ∈ os', IsOther x o := by
    obtain ⟨ranks', os', alternates, _, ⟨_, rfl, _⟩ | spliced⟩ := h.solveRank solved
    · exact ⟨_, _, alternates, others⟩
    · exact ⟨_, _, alternates, spliced.isOther others⟩
  rw [solveOperations_outcome, solveOperations_outcome, agree.solveRank h others]
  cases powers : (Reckoner.solveRank context' .power t).outcome with
  | error e => simp only [Except.bind]
  | ok t₁ =>
    obtain ⟨_, _, h₁, others₁⟩ := next h others powers
    simp only [Except.bind]
    rw [agree.solveRank h₁ others₁]
    cases products : (Reckoner.solveRank context' .product t₁).outcome with
    | error e => simp only
    | ok t₂ =>
      obtain ⟨_, _, h₂, others₂⟩ := next h₁ others₁ products
      exact agree.solveRank h₂ others₂

/-- A segment comes to the same in both contexts. -/
theorem solveSegment (chain : IsChainOf (IsCallable context) ls)
    (others : ∀ l ∈ ls, IsPlainOperand l.operand → operandRow l.operand ≠ x.text) :
    (Reckoner.solveSegment context (linksText ls)).outcome =
      (Reckoner.solveSegment context' (linksText ls)).outcome := by
  rw [solveSegment_outcome, solveSegment_outcome, ← agree.solveCalls]
  rcases chain.solveCalls with ⟨f, failed⟩ | ⟨ranks, os, u, calls, alternates, plains, _⟩
  · rw [failed]
    simp only [Except.bind]
  · have others' : ∀ p ∈ os, IsOther x p := fun p member => by
      obtain ⟨plain, written | ⟨l, among, rfl⟩⟩ := plains p member
      · exact written.isOther x
      · exact ⟨plain.isWord.row, others l among plain⟩
    rw [calls]
    simp only [Except.bind]
    rw [agree.solveOperations alternates others']

end AgreeBeside

end Reckoner
