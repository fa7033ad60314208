import Reckoner.Proofs.Evaluation.Callable
import Reckoner.Proofs.Evaluation.Faults
import Reckoner.Session.Setup

set_option autoImplicit false

namespace Reckoner

variable {context : Context} {t : Text} {setup : Setup} {bindings : Bindings} {raw : Text}

/-- Where only calls stand next to parentheses, every text that is read as an argument is a number. -/
theorem solveExpression_ne_mishap (h : Accepted t) (names : NamesApart t)
    (calls : CallsFunctions context t) (m : Mishap) :
    (solveExpression context t).outcome ≠ .error (.mishap m) := by
  rw [solveExpression_outcome]
  rcases (h.isWritten_calls names calls).solveExpression segmentsKeep_callable
    (fun _ atom => atom.isCallable) (fun _ call => call.flat) with ⟨_, failed, f, rfl⟩ |
    ⟨ls, chain, same⟩
  · rw [failed]
    simp [Except.bind]
  · rw [same]
    rcases solveSegment_chain chain with ⟨f, failed⟩ | ⟨lead, r, solved, _⟩
    · rw [failed]
      simp [Except.bind]
    · rw [solved]
      simp only [Except.bind]
      cases resolveOperand context (markValue (lead ++ r)) <;> simp [Except.mapError]

theorem Traced.outcome_handle {ε ε' α : Type} (x : Traced ε α) (f : ε → Traced ε' α) :
    (x.handle f).outcome = match x.outcome with
      | .ok a => .ok a
      | .error e => (f e).outcome := by
  obtain ⟨events, outcome⟩ := x
  cases outcome <;> rfl

theorem Setup.outcome_checked (setup : Setup) (raw : Text) : (setup.checked raw).outcome =
    ((canonical setup.constants raw).outcome.mapError Refusal.mishap).bind fun t =>
      match (check t).outcome with
      | .ok _ => .ok t
      | .error f => .error (.fault (f.report (some raw))) := by
  unfold checked
  rw [Traced.outcome_bind, Traced.outcome_mapError]
  congr 1
  funext t
  rw [Traced.outcome_bind, Traced.outcome_handle]
  cases (check t).outcome <;> rfl

/-- What passes is a canonical form that the check accepts. -/
theorem Setup.checked_eq_ok_iff : (setup.checked raw).outcome = .ok t ↔
    (canonical setup.constants raw).outcome = .ok t ∧ (check t).outcome = .ok () := by
  rw [outcome_checked]
  cases (canonical setup.constants raw).outcome with
  | error m => exact iff_of_false nofun fun both => nomatch both.1
  | ok u =>
    simp only [Except.mapError, Except.bind, Except.ok.injEq]
    constructor
    · intro passed
      cases result : (check u).outcome with
      | ok _ =>
        rw [result] at passed
        cases passed
        exact ⟨rfl, result⟩
      | error f =>
        rw [result] at passed
        contradiction
    · rintro ⟨rfl, passed⟩
      rw [passed]

theorem accepted_of_checked (checked : (setup.checked raw).outcome = .ok t) : Accepted t := by
  obtain ⟨written, passed⟩ := Setup.checked_eq_ok_iff.1 checked
  exact ⟨⟨_, _, written⟩, passed⟩

def half : Text := ['0', '.', '5']

def twoHalves : Text := ['(', '1', '/', '2', ')', 'a', 'b', 's', '(', '1', '/', '2', ')']

theorem solveSegment_half :
    (solveSegment context ['1', '/', '2']).outcome = .ok (markValue half) := by
  have one := denotes_one context
  have two : Denotes context ['2'] 2 := by
    have value : Literal.value ⟨['2'], [], by decide, by decide⟩ = 2 := by decide +kernel
    rw [← value]
    exact Literal.denotes ⟨['2'], [], by decide, by decide⟩
  have first : Link.Valid ⟨none, [], ['1']⟩ := ⟨isLead_nil, one.tame, nofun⟩
  have second : Link.Valid ⟨some .divide, [], ['2']⟩ :=
    ⟨isLead_nil, two.tame, fun operator same => by cases same; decide⟩
  have part : Part none [] ([⟨none, [], ['1']⟩] ++ [⟨some .divide, [], ['2']⟩]) :=
    first.part.append second.part nofun
  have quotient : combine .divide 1 2 = .ok 0.5 := by decide +kernel
  have result := solve_of_denotes .divide one two isLead_nil isLead_nil
  rw [List.nil_append, List.nil_append, applyLead_nil, applyLead_nil, quotient] at result
  have terms : terms context ([⟨none, [], ['1']⟩] ++ [⟨some .divide, [], ['2']⟩]) =
      .ok [Link.splice ⟨none, [], ['1']⟩ 0.5] := by
    change (Operation.solve context ⟨['1'], .divide, ['2']⟩).bind _ = _
    rw [result]
    rfl
  have solved : (solveSegment context (linksText _)).outcome = _ := solveSegment_links part
  have written : (Link.splice ⟨none, [], ['1']⟩ 0.5).body = half := by decide +kernel
  rw [terms] at solved
  rw [← written]
  exact solved

theorem solveCall_half :
    solveCall context Function.abs.name (markValue half) = .ok 0.5 := by
  have literal : Numeral.literal? (stripMarks (markValue half)) = some 0.5 := by decide +kernel
  have absolute : (0.5 : Float).abs = 0.5 := by decide +kernel
  unfold solveCall
  rw [Function.ofName?_name, literal]
  change (if (Float.abs 0.5).isNaN then _ else _) = _
  rw [absolute]
  rfl

/-- The value of the call is put directly behind the marks of the group, which are then dropped. -/
theorem solveSegment_twoHalves :
    (solveSegment context (markValue half ++ (Function.abs.name ++ markValue half))).outcome =
      .ok (markValue (half ++ half)) := by
  have argument : argument? (markValue half) = some (markValue half, []) := by decide
  have leave : CallsLeave context _ _ :=
    callsLeave_call (name_ne_nil .abs) (letters_name .abs) argument solveCall_half
  have written : Double.plain 0.5 = half := by decide +kernel
  have marked : Letterless (markValue half) := by
    unfold Letterless
    decide
  have calls := leave (markValue half) [] (.inl rfl)
  rw [List.append_nil, solveCalls_of_letterless letterless_nil, List.append_nil, written] at calls
  have nothing (rank : Rank) : findOperation? rank (markValue half ++ half) = none := by
    cases rank <;> decide +kernel
  have operations : (solveOperations context (markValue half ++ half)).outcome =
      .ok (markValue half ++ half) := by
    rw [solveOperations_outcome, solveRank_of_none (nothing _)]
    simp only [Except.bind, solveRank_of_none (nothing _)]
  rw [solveSegment_outcome, solveCalls_append marked, List.nil_append, calls]
  simp only [Traced.outcome_pure, Except.bind, operations]
  rfl

/-- As the argument of a function they are no number. -/
theorem solveExpression_twoHalves (f : Function) :
    (solveExpression context (callText f twoHalves)).outcome =
      .error (.mishap (.notANumber (half ++ half))) := by
  have group : Flattens context ['(', '1', '/', '2', ')'] (.ok (markValue half)) := by
    have flat : Flattens context ['1', '/', '2'] (.ok ['1', '/', '2']) :=
      flattens_of_flat (by decide) (by decide)
    have whole := flat.group
    simp only [Except.bind, solveSegment_half] at whole
    exact whole
  have abs : Flattens context Function.abs.name (.ok Function.abs.name) :=
    flattens_of_flat (by decide) (by decide)
  have inner := group.append (abs.append group)
  simp only [Except.bind, Except.map] at inner
  have whole : Flattens context (callText f twoHalves) (.ok (f.name ++ markValue (half ++ half))) :=
    flattens_callText inner solveSegment_twoHalves
  have found : argument? (markValue (half ++ half)) = some (markValue (half ++ half), []) := by decide
  have stop : startsWith Char.isAlpha (markValue (half ++ half)) = false := rfl
  have missed : Numeral.literal? (stripMarks (markValue (half ++ half))) = none := by decide
  have result : solveCall context f.name (markValue (half ++ half)) =
      .error (.mishap (.notANumber (half ++ half))) := by
    unfold solveCall
    rw [Function.ofName?_name, missed]
    rfl
  rw [whole.solveExpression]
  simp only [Except.bind]
  rw [solveSegment_outcome, solveCalls_call (name_ne_nil f) (letters_name f) stop found, result]
  rfl

/-- What the built-in constants make of an expression is what the standard setup does. -/
theorem Setup.checked_of_builtin (constants : setup.constants = Constant.builtin) (raw : Text) :
    setup.checked raw = Setup.standard.checked raw := by
  unfold Setup.checked
  rw [constants]
  rfl

theorem checked_twoHalves (f : Function) (constants : setup.constants = Constant.builtin) :
    (setup.checked (callText f twoHalves)).outcome = .ok (callText f twoHalves) := by
  rw [Setup.checked_of_builtin constants]
  cases f with
  | trig f => cases f <;> decide +kernel
  | _ => decide +kernel

/-- The execution of a checked expression has a value, or its fault is one of execution, or some
argument was no number; the last of these only if a name next to a parenthesis is no call, and
for every function in one expression of this kind. -/
theorem Setup.execute_checked (setup : Setup) (bindings : Bindings) :
    (∀ raw t, (setup.checked raw).outcome = .ok t →
      (∃ x, (setup.execute bindings raw t).outcome = .ok x) ∨
      (∃ r, (setup.execute bindings raw t).outcome = .error r ∧ r.family = .execution) ∨
      ∃ u, Numeral.literal? u = none ∧ (setup.execute bindings raw t).outcome =
          .error ((Mishap.notANumber u).asFault.report (some raw)) ∧
        ¬ (NamesApart t ∧ CallsFunctions ⟨bindings, setup.angles⟩ t)) ∧
    ∀ f : Function, setup.constants = Constant.builtin →
      (setup.checked (callText f twoHalves)).outcome = .ok (callText f twoHalves) ∧
        ∃ r, (setup.execute bindings (callText f twoHalves) (callText f twoHalves)).outcome =
          .error r ∧ r.kind = .unexpected ∧ r.code = "9999" := by
  refine ⟨fun raw t checked => ?_, fun f constants => ?_⟩
  · unfold Setup.execute
    rw [Traced.outcome_handle]
    cases evaluated : (solveExpression ⟨bindings, setup.angles⟩ t).outcome with
    | ok x => exact .inl ⟨x, rfl⟩
    | error e =>
      have execution := ofExecution_of_solveExpression evaluated
      cases e with
      | fault f => exact .inr (.inl ⟨f.report (some raw), rfl, execution⟩)
      | mishap m =>
        obtain ⟨u, rfl, missed⟩ := execution
        refine .inr (.inr ⟨u, missed, rfl, fun ⟨names, calls⟩ => ?_⟩)
        exact solveExpression_ne_mishap (accepted_of_checked checked) names calls _ evaluated
  · refine ⟨checked_twoHalves f constants,
      (Mishap.notANumber (half ++ half)).asFault.report (some (callText f twoHalves)), ?_, rfl, rfl⟩
    unfold Setup.execute
    rw [Traced.outcome_handle, solveExpression_twoHalves]
    rfl

/-- An absolute value, of which there is one, and one that is asked of no number. -/
theorem Setup.execute_checked_abs :
    ((∃ x, (Setup.standard.execute [] ['a', 'b', 's', '2'] ['a', 'b', 's', '2']).outcome = .ok x) ∨
      (∃ r, (Setup.standard.execute [] ['a', 'b', 's', '2'] ['a', 'b', 's', '2']).outcome =
          .error r ∧ r.family = .execution) ∨
      ∃ u, Numeral.literal? u = none ∧
        (Setup.standard.execute [] ['a', 'b', 's', '2'] ['a', 'b', 's', '2']).outcome =
          .error ((Mishap.notANumber u).asFault.report (some ['a', 'b', 's', '2'])) ∧
        ¬ (NamesApart ['a', 'b', 's', '2'] ∧
          CallsFunctions ⟨[], .degrees⟩ ['a', 'b', 's', '2'])) ∧
    (Setup.standard.checked (callText .abs twoHalves)).outcome = .ok (callText .abs twoHalves) ∧
      ∃ r, (Setup.standard.execute [] (callText .abs twoHalves) (callText .abs twoHalves)).outcome =
        .error r ∧ r.kind = .unexpected ∧ r.code = "9999" :=
  ⟨(Setup.execute_checked Setup.standard []).1 _ _ (by decide +kernel),
    (Setup.execute_checked Setup.standard []).2 .abs rfl⟩

end Reckoner
