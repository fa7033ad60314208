import Reckoner.Evaluation.Groups
import Reckoner.Proofs.Traced

set_option autoImplicit false

namespace Reckoner

/-- With all its groups solved the text is this one, or one of them fails; and whatever stands
around the text has no part in it. -/
def Flattens (context : Context) (t : Text) (flat : Except Failure Text) : Prop :=
  ∀ outer inner rest, (solveGroups context outer inner (t ++ rest)).outcome =
    flat.bind fun u => (solveGroups context outer (u.reverse ++ inner) rest).outcome

variable {context : Context} {t t' : Text} {flat flat' : Except Failure Text}

theorem flattens_of_flat (open' : '(' ∉ t) (close : ')' ∉ t) : Flattens context t (.ok t) := by
  intro outer inner rest
  induction t generalizing inner with
  | nil => rfl
  | cons c r ih =>
    have first : c ≠ '(' := fun same => open' (same ▸ .head _)
    have last : c ≠ ')' := fun same => close (same ▸ .head _)
    have after := ih (fun h => open' (.tail _ h)) (fun h => close (.tail _ h)) (c :: inner)
    rw [List.cons_append, solveGroups, if_neg first, if_neg last, after]
    simp only [Except.bind, List.reverse_cons, List.append_assoc, List.cons_append,
      List.nil_append]

theorem Flattens.append (h : Flattens context t flat) (h' : Flattens context t' flat') :
    Flattens context (t ++ t') (flat.bind fun u => flat'.map fun u' => u ++ u') := by
  intro outer inner rest
  rw [List.append_assoc, h outer inner]
  cases flat with
  | error e => rfl
  | ok u =>
    simp only [Except.bind]
    rw [h' outer]
    cases flat' with
    | error e => rfl
    | ok u' => simp only [Except.bind, Except.map, List.reverse_append, List.append_assoc]

/-- A group is solved as a segment, once the groups in it are. -/
theorem Flattens.group (h : Flattens context t flat) :
    Flattens context ('(' :: (t ++ [')']))
      (flat.bind fun u => (solveSegment context u).outcome) := by
  intro outer inner rest
  have opened : solveGroups context outer inner ('(' :: (t ++ [')']) ++ rest) =
      solveGroups context (inner :: outer) [] (t ++ ([')'] ++ rest)) := by
    rw [List.cons_append, solveGroups, if_pos rfl, List.append_assoc]
  rw [opened, h]
  cases flat with
  | error e => rfl
  | ok u =>
    simp only [Except.bind, List.append_nil]
    rw [List.singleton_append, solveGroups, if_neg (by decide), if_pos rfl]
    simp only [Traced.outcome_bind, Traced.outcome_emit, List.reverse_reverse,
      List.reverseAux_eq]
    rfl

theorem solveExpression_outcome (t : Text) :
    (solveExpression context t).outcome = (solveGroups context [] [] (t ++ [')'])).outcome.bind
      fun t => (resolveOperand context t).mapError .fault := by
  unfold solveExpression
  simp only [Traced.outcome_bind, Traced.outcome_emit, Traced.outcome_ofExcept,
    Traced.outcome_pure]
  cases (solveGroups context [] [] (t ++ [')'])).outcome with
  | error e => rfl
  | ok u =>
    simp only [Except.bind]
    cases (resolveOperand context u).mapError Failure.fault <;> rfl

/-- What an expression comes to, where a group in it has this value in marks. -/
def resume (context : Context) (outer : List Text) (rest value : Text) : Except Failure Float :=
  let whole : Except Failure Text := match outer with
    | [] => .ok (value ++ rest)
    | beginning :: outer => (solveGroups context outer (value.reverseAux beginning) rest).outcome
  whole.bind fun t => (resolveOperand context t).mapError .fault

/-- Where a group closes, it is solved as a segment. -/
theorem solveGroups_close (outer : List Text) (inner rest : Text) :
    (solveGroups context outer inner (')' :: rest)).outcome.bind
        (fun t => (resolveOperand context t).mapError .fault) =
      (solveSegment context inner.reverse).outcome.bind (resume context outer rest) := by
  rw [solveGroups, if_neg (by decide), if_pos rfl]
  simp only [Traced.outcome_bind, Traced.outcome_emit]
  cases (solveSegment context inner.reverse).outcome with
  | error e => rfl
  | ok value =>
    cases outer <;> rfl

/-- A text that is solved in its place, as a group of its own. -/
theorem Flattens.solveGroups (h : Flattens context t flat) :
    (Reckoner.solveGroups context [] [] (t ++ [')'])).outcome =
      flat.bind fun u => (solveSegment context u).outcome := by
  rw [h [] [] [')']]
  cases flat with
  | error e => rfl
  | ok u =>
    simp only [Except.bind, List.append_nil]
    rw [Reckoner.solveGroups, if_neg (by decide), if_pos rfl, Traced.outcome_bind,
      Traced.outcome_bind, List.reverse_reverse]
    cases (solveSegment context u).outcome with
    | error e => rfl
    | ok v => exact congrArg Except.ok (List.append_nil v)

/-- The value of an expression is that of its last segment. -/
theorem Flattens.solveExpression (h : Flattens context t flat) :
    (Reckoner.solveExpression context t).outcome = flat.bind fun u =>
      (solveSegment context u).outcome.bind fun u =>
        (resolveOperand context u).mapError .fault := by
  rw [solveExpression_outcome, h.solveGroups]
  cases flat <;> rfl

end Reckoner
