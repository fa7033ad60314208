import Reckoner.Proofs.Decimal.Places
import Reckoner.Proofs.Double.One
import Reckoner.Proofs.Evaluation.Untouched
import Reckoner.Proofs.Session.Wrapped

set_option autoImplicit false

namespace Reckoner

open Double

variable {context : Context} {setup : Setup} {bindings : Bindings} {raw t u name : Text} {x y : Float}

def HoldsNaN (bindings : Bindings) (name : Text) : Prop :=
  ∃ x, (bindings.get? name).bind Binding.value? = some x ∧ x.isNaN = true

/-- Whether an operand, which is no number and has at most one sign, is read as a variable that
holds NaN. -/
def ReadsNaN (bindings : Bindings) (operand : Text) : Prop :=
  Numeral.literal? operand = none ∧ HoldsNaN bindings (signedName operand).2

theorem isNaN_ofMagnitude (negative : Bool) {bits : Nat} (bound : bits ≤ infinityBits) :
    (ofMagnitude negative bits).isNaN = false := by
  rw [isNaN_eq_false_iff, magnitude_ofMagnitude negative bound]
  exact bound

/-- No text is a number that is none. -/
theorem isNaN_of_literal? (value : Numeral.literal? t = some x) : x.isNaN = false := by
  unfold Numeral.literal? at value
  simp only at value
  split at value
  · cases value
    exact isNaN_ofMagnitude _ (Nat.le_refl _)
  · split at value
    next d _ =>
      cases value
      exact isNaN_ofMagnitude _ (bits_le d)
    next => contradiction

theorem isNaN_signed (negative : Bool) (x : Float) :
    ((if negative then -1 else 1) * x).isNaN = x.isNaN := by
  cases negative with
  | true =>
    show (-1 * x).isNaN = x.isNaN
    rw [neg_one_mul, Bool.eq_iff_iff, isNaN_iff, isNaN_iff, magnitude_neg]
  | false =>
    show (1 * x).isNaN = x.isNaN
    rw [one_mul]

/-- An operand has the value NaN only from a variable. -/
theorem isNaN_resolveOperand (value : resolveOperand context t = .ok x) :
    x.isNaN = true ↔ ReadsNaN context.bindings (bareOperand t) := by
  unfold resolveOperand at value
  simp only at value
  unfold ReadsNaN HoldsNaN
  split at value
  next y read =>
    cases value
    rw [isNaN_of_literal? read, read]
    exact iff_of_false nofun fun both => nomatch both.1
  next read =>
    split at value
    next y bound =>
      cases value
      rw [isNaN_signed, bound]
      constructor
      · intro nan
        exact ⟨read, y, rfl, nan⟩
      · rintro ⟨_, z, same, nan⟩
        cases same
        exact nan
    next => contradiction

theorem isNaN_of_isFinite (finite : x.isFinite = true) : x.isNaN = false := by
  rw [isNaN_eq_false_iff]
  exact Nat.le_of_lt (isFinite_iff.1 finite)

/-- A number stays a number where it is rounded, and what is none stays as it is. -/
theorem Display.isNaN_round {places : Int} (rounded : Display.round places x = .ok y) :
    y.isNaN = x.isNaN := by
  unfold Display.round at rounded
  split at rounded
  next finite =>
    rw [isNaN_of_isFinite finite]
    split at rounded
    next z read =>
      cases rounded
      unfold roundTo? at read
      split at read
      · cases read
        exact isNaN_of_isFinite finite
      · split at read
        · cases read
          exact isNaN_ofMagnitude _ (Nat.zero_le _)
        · simp only at read
          split at read
          · contradiction
          · cases read
            exact isNaN_ofMagnitude _ (bits_le _)
    next => contradiction
  next =>
    cases rounded
    rfl

/-- An evaluation with a value has passed the check, and its value is the rounded one. -/
theorem Setup.evaluate_eq_ok {e : Evaluation}
    (evaluated : (setup.evaluate bindings raw).outcome = .ok e) (value : e.value = some x) :
    ∃ t y, (setup.checked raw).outcome = .ok t ∧ e.canonical = some t ∧
      (solveExpression ⟨bindings, setup.angles⟩ t).outcome = .ok y ∧
      Display.round setup.style.places y = .ok x := by
  unfold Setup.evaluate at evaluated
  simp only at evaluated
  cases checked : (setup.checked raw).outcome with
  | error refusal =>
    rw [checked] at evaluated
    cases refusal with
    | mishap m => contradiction
    | fault r =>
      cases evaluated
      contradiction
  | ok t =>
    rw [checked] at evaluated
    simp only at evaluated
    cases executed : (setup.execute bindings raw t).outcome with
    | error r =>
      rw [executed] at evaluated
      cases evaluated
      contradiction
    | ok y =>
      rw [executed] at evaluated
      obtain ⟨z, rounded, same⟩ := map_eq_ok evaluated
      subst same
      cases value
      exact ⟨t, y, rfl, rfl, execute_eq_ok_iff.1 executed, rounded⟩

theorem operatorsFirst_lead_letters {lead : Text} (sign : IsLead lead) (letters : Letters name) :
    OperatorsFirst (lead ++ name) := by
  have unsigned : ∀ c ∈ name, isOperator c = false := by
    intro c member
    rw [← Bool.not_eq_true]
    intro operator
    have operand := isOperandChar_of_isAlpha (letters c member)
    obtain ⟨o, rfl⟩ := isOperator_iff.1 operator
    rw [o.not_isOperandChar_symbol] at operand
    contradiction
  exact pairwise_append_of_bare sign.bare unsigned

/-- A sign in front of a text is no part of a number that is in it. -/
theorem HoldsNumber.of_lead {lead : Text} (sign : IsLead lead) (h : HoldsNumber (lead ++ t)) :
    HoldsNumber t := by
  obtain ⟨s, number, inside⟩ := h
  obtain ⟨c, r, rfl, operand⟩ := number.row.exists_cons
  refine ⟨c :: r, number, ?_⟩
  have other {d : Char} (sign : isSign d = true) (part : (c :: r) <:+: d :: t) : (c :: r) <:+: t := by
    rcases List.infix_cons_iff.1 part with first | later
    · obtain ⟨v, shape⟩ := first
      rw [(List.cons.inj shape).1, not_isOperandChar_of_isSign sign] at operand
      contradiction
    · exact later
  rcases sign with rfl | rfl | rfl
  · exact inside
  · exact other rfl inside
  · exact other rfl inside

/-- An evaluation with a value comes to NaN just where the operand that is left in the end is read as
a variable that holds NaN. Where no variable holds NaN no value is NaN. Where no number can be part of
the names of those that do, the operand is the whole expression: the values that are NaN are those of
expressions that are such a variable, but for parentheses and signs. -/
theorem Setup.evaluate_isNaN_iff {e : Evaluation}
    (evaluated : (setup.evaluate bindings raw).outcome = .ok e) (value : e.value = some x) :
    ((∀ name, ¬ HoldsNaN bindings name) → x.isNaN = false) ∧
    ∃ t left, e.canonical = some t ∧
      (solveGroups ⟨bindings, setup.angles⟩ [] [] (t ++ [')'])).outcome = .ok left ∧
      (x.isNaN = true ↔ ReadsNaN bindings (bareOperand left)) ∧
      ((∀ name, HoldsNaN bindings name → Letters name ∧ ¬ HoldsNumber name) →
        (x.isNaN = true ↔ ReadsNaN bindings (ungrouped t))) := by
  obtain ⟨t, y, checked, written, solved, rounded⟩ := evaluate_eq_ok evaluated value
  rw [solveExpression_outcome] at solved
  obtain ⟨left, groups, resolved⟩ := bind_eq_ok solved
  have reads : x.isNaN = true ↔ ReadsNaN bindings (bareOperand left) := by
    rw [Display.isNaN_round rounded]
    exact isNaN_resolveOperand (mapError_eq_ok.1 resolved)
  have nested : WellNested t :=
    wellNested_iff.2 (openAtEnd_of_check (checked_eq_ok_iff.1 checked).2)
  refine ⟨?_, t, left, written, groups, reads, ?_⟩
  · intro none
    rw [← Bool.not_eq_true, reads]
    exact fun ⟨_, nan⟩ => none _ nan
  · intro ordinary
    rw [reads]
    -- What reads as such a variable is a name of letters behind at most a sign.
    have shape {operand : Text} (nan : ReadsNaN bindings operand) :
        OperatorsFirst operand ∧ ¬ HoldsNumber operand := by
      obtain ⟨lead, sign, same⟩ := signedName_shape operand
      obtain ⟨letters, none⟩ := ordinary _ nan.2
      rw [same]
      exact ⟨operatorsFirst_lead_letters sign letters, fun number => none (number.of_lead sign)⟩
    constructor
    · intro nan
      rcases solveGroups_untouched nested groups with same | number
      · exact same ▸ nan
      · exact absurd number.bareOperand (shape nan).2
    · intro nan
      rw [solveGroups_inert nested (shape nan).1 (shape nan).2 groups]
      exact nan

/-- A name alone comes to what the variable holds. -/
theorem Name.solveExpression_text {n : Name}
    (bound : context.bindings.get? n.text = some (.number x)) :
    (solveExpression context n.text).outcome = .ok x := by
  have flat (c : Char) (other : c.isAlpha = false) : c ∉ n.text := fun member => by
    rw [n.letters c member] at other
    contradiction
  have value := (n.denotes bound).resolve isLead_nil
  rw [(flattens_of_flat (flat '(' rfl) (flat ')' rfl)).solveExpression]
  simp only [Except.bind, solveSegment_tameOperand (.row n.isTame), resolveOperand_markValue]
  rw [List.nil_append] at value
  rw [value.1]
  rfl

/-- A variable that holds NaN is evaluated to NaN. -/
theorem Setup.evaluate_isNaN_variable : ∃ e x,
    (Setup.standard.evaluate [(['x'], .number nan)] ['x']).outcome = .ok e ∧ e.value = some x ∧
      x.isNaN = true := by
  have checked : (Setup.standard.checked ['x']).outcome = .ok ['x'] := by decide +kernel
  have solved : (solveExpression ⟨[(['x'], .number nan)], .degrees⟩ nameX.text).outcome = .ok nan :=
    nameX.solveExpression_text rfl
  have executed : (Setup.standard.execute [(['x'], .number nan)] ['x'] ['x']).outcome = .ok nan :=
    execute_eq_ok_iff.2 solved
  have rounded : Display.round Setup.standard.style.places nan = .ok nan := by decide +kernel
  obtain ⟨e, evaluated, value⟩ : ∃ e,
      (Setup.standard.evaluate [(['x'], .number nan)] ['x']).outcome = .ok e ∧
        e.value = some nan ∧ e.canonical = some ['x'] := by
    unfold Setup.evaluate
    simp only [checked, executed, rounded, Except.map]
    exact ⟨_, rfl, rfl, rfl⟩
  have ordinary (name : Text) (nan : HoldsNaN [(['x'], .number nan)] name) :
      Letters name ∧ ¬ HoldsNumber name := by
    obtain ⟨y, bound, _⟩ := nan
    rw [Table.get?_cons] at bound
    split at bound
    next same =>
      rw [beq_iff_eq.1 same]
      refine ⟨nameX.letters, ?_⟩
      rintro ⟨s, digit | _, inside⟩
      · have member := inside.subset (List.mem_singleton.2 rfl)
        rw [List.mem_singleton.1 member] at digit
        contradiction
      · exact absurd inside.length_le (by decide)
    next => contradiction
  obtain ⟨_, t, _, written, _, _, whole⟩ := Setup.evaluate_isNaN_iff evaluated value.1
  obtain rfl : ['x'] = t := Option.some.inj (value.2.symm.trans written)
  refine ⟨e, nan, evaluated, value.1, (whole ordinary).2 ⟨by decide, nan, rfl, ?_⟩⟩
  decide +kernel

end Reckoner
