import Reckoner.Proofs.Expression.Scientific
import Reckoner.Proofs.Session.Execution
import Reckoner.Session.Basic

set_option autoImplicit false

namespace Reckoner

open Numeral

variable {session : Session} {raw t : Text}

/-- In what a session makes of an expression, once constants are replaced and spaces removed, a numeral
with an exponent is found between two parts. -/
def Session.Folds (session : Session) (raw a : Text) (n : Exponential) (b : Text) : Prop :=
  (replaceConstants session.setup.constants raw).map removeSpaces = .ok (a ++ (n.text ++ b)) ∧
    Reckoner.Folds a n b

theorem Session.outcome_check (written : (canonical session.setup.constants raw).outcome = .ok t) :
    (session.check raw).outcome = .ok (Reckoner.check t).outcome.isOk := by
  have checked := session.setup.outcome_checked raw
  simp only [written, Except.mapError, Except.bind] at checked
  unfold check
  cases passed : (Reckoner.check t).outcome with
  | ok _ =>
    simp only [passed] at checked
    simp only [checked]
    rfl
  | error f =>
    simp only [passed] at checked
    simp only [checked]
    rfl

theorem canonical_finish {constants : Table Text Constant}
    (spaceless : (replaceConstants constants raw).map removeSpaces = .ok t) :
    (canonical constants raw).outcome = .ok (finish (expandScientific t)) := by
  obtain ⟨named, replaced, rfl⟩ := map_eq_ok spaceless
  rw [canonical_outcome, replaced]
  rfl

theorem Session.check_eq_true_iff
    (spaceless : (replaceConstants session.setup.constants raw).map removeSpaces = .ok t) :
    (session.check raw).outcome = .ok true ↔ Accepted (finish (expandScientific t)) := by
  have written := canonical_finish spaceless
  rw [outcome_check written, Except.ok.injEq]
  constructor
  · intro passed
    refine ⟨⟨_, _, written⟩, ?_⟩
    cases checked : (Reckoner.check (finish (expandScientific t))).outcome with
    | ok _ => rfl
    | error f =>
      rw [checked] at passed
      contradiction
  · intro accepted
    rw [accepted.checked]
    rfl

theorem Session.check_eq_false_iff
    (spaceless : (replaceConstants session.setup.constants raw).map removeSpaces = .ok t) :
    (session.check raw).outcome = .ok false ↔ ¬ Accepted (finish (expandScientific t)) := by
  rw [← check_eq_true_iff spaceless, outcome_check (canonical_finish spaceless), Except.ok.injEq,
    Except.ok.injEq, Bool.not_eq_true]

/-- Where a numeral is written out in digits alone, it can stand on both sides of a point. -/
theorem Numeral.Exponential.exists_check_true (n : Exponential)
    (row : ∀ c ∈ n.writtenOut, c.isDigit = true) : ∃ (session : Session) (raw : Text),
    session.Folds raw (n.text ++ ['.']) n [] ∧ session.Folds raw [] n ('.' :: n.text) ∧
      (session.check raw).outcome = .ok true := by
  let session := Session.start { Setup.standard with constants := [] }
  have none : ∀ c ∈ ([] : Text).head?, isDecimalDigit c = false := nofun
  have point : ∀ c ∈ ('.' :: n.text).head?, isDecimalDigit c = false := by
    intro c head
    cases head
    decide
  have spaceless : (replaceConstants session.setup.constants (n.text ++ '.' :: n.text)).map
      removeSpaces = .ok (n.text ++ '.' :: n.text) := by
    have kept : ∀ c ∈ n.text, (c != ' ') = true := fun c member => bne_iff_ne.2 (n.ne_space c member)
    have all : ∀ c ∈ n.text ++ '.' :: n.text, (c != ' ') = true :=
      List.forall_mem_append.2 ⟨kept, List.forall_mem_cons.2 ⟨rfl, kept⟩⟩
    rw [show session.setup.constants = [] from rfl, replaceConstants_nil]
    exact congrArg Except.ok (List.filter_eq_self.2 all)
  have expanded : expandScientific (n.text ++ '.' :: n.text) = n.writtenOut ++ '.' :: n.writtenOut := by
    have alone := n.expandScientific_text none
    rw [List.append_nil, expandScientific, List.append_nil] at alone
    rw [n.expandScientific_text point, expandScientific_cons (by decide), alone]
  refine ⟨session, n.text ++ '.' :: n.text, ⟨?_, .behind_point n⟩, ⟨spaceless, .here n point⟩, ?_⟩
  · rw [spaceless, List.append_nil, List.append_assoc, List.singleton_append]
  · rw [Session.check_eq_true_iff spaceless, expanded,
      (chained_rows row n.writtenOut_ne_nil row n.writtenOut_ne_nil).finish_eq_self]
    exact accepted_rows row n.writtenOut_ne_nil row n.writtenOut_ne_nil

/-- A session rejects every expression with a point directly in front of a numeral with an exponent just
where the numeral is not written out in digits alone, and every one with a point directly behind it just
there, too. -/
theorem Numeral.Exponential.check_beside_point (n : Exponential) :
    ((∀ (session : Session) (raw a b : Text), session.Folds raw (a ++ ['.']) n b →
        (session.check raw).outcome = .ok false) ↔ ¬ ∀ c ∈ n.writtenOut, c.isDigit = true) ∧
      ((∀ (session : Session) (raw a b : Text), session.Folds raw a n ('.' :: b) →
        (session.check raw).outcome = .ok false) ↔ ¬ ∀ c ∈ n.writtenOut, c.isDigit = true) := by
  have between := n.exists_check_true
  refine ⟨⟨fun refused row => ?_, fun points session raw a b found => ?_⟩,
    ⟨fun refused row => ?_, fun points session raw a b found => ?_⟩⟩
  · obtain ⟨session, raw, before, behind, passed⟩ := between row
    rw [refused session raw _ _ before] at passed
    contradiction
  · obtain ⟨a', expanded, _, last⟩ := found.2.expanded
    obtain ⟨u, rfl⟩ := List.getLast?_eq_some_iff.1 (last List.getLast?_concat)
    rw [Session.check_eq_false_iff found.1, expanded, List.append_assoc, List.singleton_append]
    exact not_accepted_behind_point points _ _
  · obtain ⟨session, raw, before, behind, passed⟩ := between row
    rw [refused session raw _ _ behind] at passed
    contradiction
  · obtain ⟨a', expanded, _⟩ := found.2.expanded
    rw [Session.check_eq_false_iff found.1, expanded, expandScientific_cons (by decide)]
    exact not_accepted_before_point points _ _

def wholeNumeral : Exponential :=
  ⟨['2'], ['3'], [], ['4'], List.forall_mem_singleton.2 rfl, List.forall_mem_singleton.2 rfl,
    List.forall_mem_singleton.2 rfl, List.cons_ne_nil _ _, List.cons_ne_nil _ _, isLead_nil⟩

/-- A numeral whose whole value makes one decimal of what were two points. -/
theorem Numeral.Exponential.check_beside_point_whole : ∃ n : Exponential,
    n.text = ['2', '.', '3', 'E', '4'] ∧
      (Session.start .standard).Folds ['1', '.', '2', '.', '3', 'E', '4'] ['1', '.'] n [] ∧
      ((Session.start .standard).check ['1', '.', '2', '.', '3', 'E', '4']).outcome = .ok true ∧
      ∀ c ∈ n.writtenOut, c.isDigit = true := by
  have passed : ((Session.start .standard).check ['1', '.', '2', '.', '3', 'E', '4']).outcome =
      .ok true := by decide +kernel
  have found : (Session.start .standard).Folds ['1', '.', '2', '.', '3', 'E', '4'] ['1', '.']
      wholeNumeral [] := by
    refine ⟨by decide +kernel, ?_⟩
    have point : Reckoner.Folds ['.'] wholeNumeral [] := .cons (by decide) (.here wholeNumeral nofun)
    refine .past (r := []) (by decide +kernel) nofun (fun d head => ?_) point
    cases head
    decide
  refine ⟨wholeNumeral, rfl, found, passed, ?_⟩
  by_contra points
  have refused := (check_beside_point wholeNumeral).1.2 points _ _ ['1'] _ found
  rw [passed] at refused
  cases refused

end Reckoner
