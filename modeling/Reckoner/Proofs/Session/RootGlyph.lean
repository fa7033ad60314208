import Reckoner.Proofs.Decimal.Whole
import Reckoner.Proofs.Double.Reciprocal
import Reckoner.Proofs.Evaluation.Enclosing
import Reckoner.Proofs.Evaluation.Powers
import Reckoner.Proofs.Expression.RootGlyph
import Reckoner.Proofs.Session.Wrapped

set_option autoImplicit false

namespace Reckoner

open Double

variable {session : Session} {setup : Setup} {bindings : Bindings} {context : Context} {g : Char}
  {raw rest t before after : Text}

def rootLiteral (g : Char) : Literal where
  whole := [rootIndex g]
  places := []
  nonempty := List.cons_ne_nil _ _
  digits := by
    have digit : (rootIndex g).isDigit = true := by
      unfold rootIndex
      split <;> decide
    intro c member
    rw [List.append_nil, List.mem_singleton] at member
    rw [member]
    exact digit

theorem markValue_rootLiteral (g : Char) :
    markValue (rootLiteral g).text = openMark :: ([] ++ ((rootLiteral g).text ++ [closeMark])) := by
  rw [markValue, bareOperand_row (rootLiteral g).isRow]
  rfl

/-- The root that a root sign with this radicand stands for. -/
def rootOperation (g : Char) (l : Literal) : Operation :=
  ⟨markValue (rootLiteral g).text, .root, l.text⟩

theorem solve_rootOperation (g : Char) (l : Literal) :
    (rootOperation g l).solve context = combine .root (rootLiteral g).value l.value := by
  have index : Denotes context _ _ := (rootLiteral g).denotes.markValue isLead_nil
  have value := solve_of_denotes .root index l.denotes isLead_nil isLead_nil
  rwa [List.nil_append, List.nil_append, List.nil_append, applyLead_nil, applyLead_nil,
    applyLead_nil] at value

theorem root_of_solve (g : Char) (l : Literal) {x : Float}
    (solved : (rootOperation g l).solve context = .ok x) :
    root (rootLiteral g).value l.value = .ok x := by
  rw [solve_rootOperation] at solved
  obtain ⟨y, result, number⟩ := bind_eq_ok solved
  have result : root (rootLiteral g).value l.value = .ok y := result
  by_cases undefined : y.isNaN = true
  · rw [if_pos undefined] at number
    cases number
  · rw [if_neg undefined] at number
    cases number
    exact result

/-- A root sign with its radicand is an operation of the first rank, if the root is not negative. -/
theorem isFirst_root (g : Char) (l : Literal)
    (nonnegative : ∀ x, root (rootLiteral g).value l.value = .ok x → ¬ x < 0) :
    IsFirst context (rootOperation g l) where
  left := by
    rw [rootOperation, markValue_rootLiteral]
    exact .marked isLead_nil (rootLiteral g).isRow
  right := .row l.isRow
  rank := rfl
  letterless := by
    have numeral {l : Literal} : Letterless l.text := fun _ member =>
      not_isAlpha_of_isArgumentChar (l.mem_text member)
    have mark : rootMark.isAlpha = false := by decide
    unfold rootOperation Operation.text
    rw [markValue_rootLiteral]
    refine List.forall_mem_append.2 ⟨List.forall_mem_cons.2 ⟨by decide, ?_⟩,
      List.forall_mem_cons.2 ⟨mark, numeral⟩⟩
    exact List.forall_mem_append.2 ⟨nofun, List.forall_mem_append.2 ⟨numeral, by decide⟩⟩
  value x solved := nonnegative x (root_of_solve g l solved)

theorem flattens_rootText (root : isRootGlyph g = true) (l : Literal) :
    Flattens context (rootText g l) (.ok (rootOperation g l).text) := by
  have tame : IsTameOperand (rootLiteral g).text := .row (rootLiteral g).isTame
  have index : Flattens context (rootLiteral g).text (.ok (rootLiteral g).text) :=
    flattens_of_flat (rootLiteral g).flat.1 (rootLiteral g).flat.2
  have group := index.group
  simp only [Except.bind, solveSegment_tameOperand tame] at group
  have radicand : Flattens context (rootMark :: l.text) (.ok (rootMark :: l.text)) :=
    flattens_of_flat (List.not_mem_cons_of_ne_of_not_mem (by decide) l.flat.1)
      (List.not_mem_cons_of_ne_of_not_mem (by decide) l.flat.2)
  have whole := group.append radicand
  rw [rootText_eq root]
  exact whole

theorem balanced_rootText (root : isRootGlyph g = true) (l : Literal) : Balanced (rootText g l) := by
  have radicand : Balanced (rootMark :: l.text) := by
    have flat := Balanced.nil.append_flat l.flat.1 l.flat.2
    rw [List.append_nil] at flat
    exact .char (by decide) (by decide) flat
  have index : Balanced (rootLiteral g).text := by
    have flat := Balanced.nil.append_flat (rootLiteral g).flat.1 (rootLiteral g).flat.2
    rwa [List.append_nil] at flat
  rw [rootText_eq root]
  exact .group index radicand

theorem zeroDigits_ne_nil : ['0'] ≠ [] := List.cons_ne_nil _ _

theorem isDigit_zeroDigits : ∀ c ∈ ['0'] ++ [], c.isDigit = true := by decide

def zeroRadicand : Literal := ⟨['0'], [], zeroDigits_ne_nil, isDigit_zeroDigits⟩

theorem magnitude_zeroRadicand : magnitude zeroRadicand.value = 0 := magnitude_zeroOperand

theorem rootLiteral_positive : magnitude (rootLiteral '√').value ≠ 0 ∧ (rootLiteral '√').value > 0 := by
  decide +kernel

theorem root_zeroRadicand : root (rootLiteral '√').value zeroRadicand.value = .ok 0 := by
  obtain ⟨nonzero, positive⟩ := rootLiteral_positive
  rw [root_of_zero_radicand (rootLiteral '√').number nonzero magnitude_zeroRadicand, if_pos positive]

theorem solve_zeroRadicand : (rootOperation '√' zeroRadicand).solve context = .ok 0 := by
  rw [solve_rootOperation]
  unfold combine
  change (root (rootLiteral '√').value zeroRadicand.value).bind _ = _
  rw [root_zeroRadicand]
  rfl

/-- A square root of zero is an operation of the first rank. -/
theorem isFirst_zeroRadicand : IsFirst context (rootOperation '√' zeroRadicand) := by
  refine isFirst_root '√' zeroRadicand fun x solved => ?_
  rw [root_zeroRadicand] at solved
  cases solved
  decide

/-- A root of zero is zero, if it is a number. -/
theorem combine_root_of_zero {x y z : Float} (zero : magnitude y = 0)
    (solved : combine .root x y = .ok z) : z = 0 := by
  have result : root x y = .ok Double.nan ∨ root x y = .ok 0 ∨ ∃ e, root x y = .error e := by
    by_cases nan : x.isNaN = true
    · exact .inl (root_of_nan (.inl nan))
    · have number : x.isNaN = false := by simpa using nan
      by_cases none : magnitude x = 0
      · exact .inr (.inr ⟨_, root_of_zero_index none (isNaN_of_zero zero)⟩)
      · rw [root_of_zero_radicand number none zero]
        split
        · exact .inr (.inl rfl)
        · exact .inr (.inr ⟨_, rfl⟩)
  unfold combine at solved
  change (root x y).bind _ = _ at solved
  rcases result with nan | value | ⟨e, failed⟩
  · rw [nan] at solved
    cases solved
  · rw [value] at solved
    exact (Except.ok.inj solved).symm
  · rw [failed] at solved
    cases solved

/-- A chain that ends with a root of zero is zero. -/
theorem Powers.setAside_root_of_zero {c : Powers} {a : PowerOperand} {state : Bool × Float}
    (zero : magnitude a.value = 0) (aside : (c.next ⟨.root, rfl⟩ a).setAside = .ok state) :
    magnitude (withSign state.1 state.2) = 0 := by
  obtain ⟨before, _, rest⟩ := bind_eq_ok aside
  obtain ⟨z, root, last⟩ := bind_eq_ok rest
  cases last
  rw [combine_root_of_zero zero root, magnitude_withSign]
  exact (by decide : magnitude (ofMagnitude false (magnitude 0)) = 0)

theorem rank_power : Operator.power.rank = .power := rfl

theorem rank_root : Operator.root.rank = .power := rfl

def rootOfPower : Powers :=
  ((Powers.operand twoOperand).next ⟨.power, rank_power⟩
    (.group ⟨[], isLead_nil⟩ (rootLiteral '√'))).next ⟨.root, rank_root⟩ zeroOperand

theorem markValue_zero : markValue (plain 0) = [openMark, '0', closeMark] := by
  have sign : valueSign 0 = [] := by decide
  rw [plain_eq (by decide), sign, sizeText_zero]
  rfl

/-- Two to the power of a root of zero, once the root is solved. -/
theorem isFirst_powerOfRoot (context : Context) :
    Operation.solve context ⟨['2'], .power, markValue (plain 0)⟩ = .ok 1 ∧
      IsFirst context ⟨['2'], .power, markValue (plain 0)⟩ := by
  have base : Denotes context ['2'] (rootLiteral '√').value := (rootLiteral '√').denotes
  have exponent : Denotes context (markValue (plain 0)) 0 := by
    rw [markValue_zero]
    exact (denotes_zero context).markValue isLead_nil
  have value : Operation.solve context ⟨['2'], .power, markValue (plain 0)⟩ = .ok 1 := by
    have solved := solve_of_denotes .power base exponent isLead_nil isLead_nil
    exact solved.trans
      (combine_power_zero (rootLiteral '√').number rootLiteral_positive.1 magnitude_zero)
  refine ⟨value, .row ⟨by decide, by unfold Solid; decide⟩, exponent.tame.operand, rfl, ?_, ?_⟩
  · rw [Operation.text, markValue_zero]
    unfold Letterless
    decide
  · intro x solved
    rw [value] at solved
    cases solved
    decide

theorem solveExpression_powerOfRoot (context : Context) :
    (solveExpression context ['2', '^', '(', '(', '2', ')', '˅', '0', ')']).outcome = .ok 1 := by
  have group : Flattens context ('(' :: (rootText '√' zeroRadicand ++ [')']))
      (.ok (markValue (plain 0))) := by
    have flat : Flattens context _ _ := (flattens_rootText (g := '√') rfl zeroRadicand).group
    simp only [Except.bind, isFirst_zeroRadicand.solveSegment, solve_zeroRadicand] at flat
    exact flat
  have whole : Flattens context (['2', '^'] ++ ('(' :: (rootText '√' zeroRadicand ++ [')']))) _ :=
    (flattens_of_flat (by decide) (by decide)).append group
  obtain ⟨value, first⟩ := isFirst_powerOfRoot context
  have alike := first.solveExpression whole
  rw [value] at alike
  obtain ⟨x, _, solved, same, alike⟩ | ⟨_, _, _, wrong⟩ := alike.cases
  · cases same
    rcases alike with rfl | ⟨_, wrong⟩
    · exact solved
    · exact absurd wrong (by decide)
  · exact nomatch wrong

theorem Display.round_of_isWhole {places : Int} {x : Float} (nonnegative : 0 ≤ places)
    (whole : isWhole x = true) : Display.round places x = .ok x := by
  have finite : x.isFinite = true := (Bool.and_eq_true_iff.1 whole).1
  unfold Display.round
  rw [if_pos finite, roundTo?_of_isWhole nonnegative whole]

theorem isWhole_one : isWhole 1 = true := by
  refine isWhole_iff.2 ⟨by decide, 1, ?_⟩
  have size : magnitude 1 = 1022 * 2 ^ 52 + 2 ^ 52 := by decide
  rw [size, units_of_normal le_rfl (by decide), Nat.one_mul]
  simp only [unit, ← Nat.pow_add, Nat.reduceAdd]

theorem LeavesOperand.canonical {constants : Table Text Constant} (h : LeavesOperand rest)
    (written : (Reckoner.canonical constants rest).outcome = .ok after) : LeavesOperand after := by
  rw [canonical_glyphText] at written
  obtain ⟨q, spelled, rfl⟩ := map_eq_ok written
  have leaves := (h.glyphText spelled).replaceGlyphs
  unfold LeavesOperand
  rw [head?_markProducts]
  exact leaves

/-- What stands in front of a group, without a name there. -/
theorem Accepted.before_group (accepted : Accepted (before ++ '(' :: t))
    (nameless : ∀ c ∈ before.getLast?, c.isAlpha = false) :
    ∀ c ∈ before.getLast?, c = '(' ∨ isOperator c = true := by
  intro c last
  obtain ⟨u, rfl⟩ := List.getLast?_eq_some_iff.1 last
  obtain ⟨_, chained, _⟩ := accepted_iff.1 accepted
  have next : Reckoner.follows c '(' = true :=
    chained.follows (u := u) (v := t) (List.append_assoc u [c] ('(' :: t))
  have spelled := chained.isCanonicalChar c (by simp)
  rcases canonicalChar_cases spelled with rfl | rfl | rfl | digit | letter | sign | binary
  · contradiction
  · exact .inl rfl
  · contradiction
  · rw [follows_digit digit] at next
    contradiction
  · rw [nameless c last] at letter
    contradiction
  · exact .inr (by simp [isOperator, sign])
  · exact .inr (by simp [isOperator, binary])

theorem not_rootMark_of_powersApart (apart : PowersApart before) :
    ∀ c ∈ before.getLast?, c ≠ rootMark := by
  rintro c last rfl
  obtain ⟨u, rfl⟩ := List.getLast?_eq_some_iff.1 last
  exact apart u .root [] rfl isLead_nil rfl

theorem PowersApart.asFactor (apart : PowersApart before) : PowersApart (asFactor before) := by
  unfold Reckoner.asFactor
  split
  · intro s operator lead shape sign
    have ends := congrArg List.getLast? shape
    rw [List.getLast?_concat] at ends
    rcases sign with rfl | rfl | rfl
    · rw [List.getLast?_concat] at ends
      cases operator <;> first | decide | exact absurd ends (by decide)
    · simp at ends
    · simp at ends
  · exact apart

/-- A root sign with a numeral behind it can stand in parentheses. -/
theorem Session.solves_root (session : Session) (bindings : Bindings)
    (root : isRootGlyph g = true) (l : Literal)
    (nonnegative : ∀ x, Reckoner.root (rootLiteral g).value l.value = .ok x → ¬ x < 0)
    (written : (canonical session.setup.constants raw).outcome = .ok before)
    (nameless : ∀ c ∈ before.getLast?, c.isAlpha = false ∧ c ≠ indexMark)
    (apart : PowersApart before) (leaves : LeavesOperand rest)
    (checked : (session.setup.checked (raw ++ g :: (l.text ++ rest))).outcome = .ok t)
    (single : ¬ Crowded ⟨bindings, session.setup.angles⟩ (asFactor before) (rootText g l) t) :
    (session.setup.checked (raw ++ '(' :: g :: (l.text ++ ')' :: rest))).outcome.isOk = true ∧
      ∀ v, session.Solves bindings (raw ++ g :: (l.text ++ rest)) v ↔
        session.Solves bindings (raw ++ '(' :: g :: (l.text ++ ')' :: rest)) v := by
  have marks : ∀ c ∈ before.getLast?, c ≠ rootMark ∧ c ≠ indexMark := fun c last =>
    ⟨not_rootMark_of_powersApart apart c last, (nameless c last).2⟩
  obtain ⟨alone, inside⟩ := canonical_root root l written marks leaves
  have accepted := accepted_of_checked checked
  have text := (Setup.checked_eq_ok_iff.1 checked).1
  rw [alone] at text
  obtain ⟨after, ending, rfl⟩ := map_eq_ok text
  rw [ending] at inside
  have delimits : Delimits (asFactor before) after := by
    refine ⟨?_, leaves.canonical ending⟩
    rw [rootText_eq root] at accepted
    refine accepted.before_group ?_
    unfold asFactor
    split
    · intro c last
      rw [List.getLast?_concat] at last
      cases last
      decide
    · exact fun c last => (nameless c last).1
  have balanced := balanced_rootText root l
  have checked' : (session.setup.checked (raw ++ '(' :: g :: (l.text ++ ')' :: rest))).outcome =
      .ok (asFactor before ++ ('(' :: (rootText g l ++ [')']) ++ after)) :=
    Setup.checked_eq_ok_iff.2 ⟨inside, (accepted.parenthesized balanced (chained_rootText root l)
      delimits).checked⟩
  have same : SameValue _ _ _ := (isFirst_root g l nonnegative).sameValue (flattens_rootText root l)
    accepted balanced delimits apart.asFactor single
  refine ⟨by rw [checked']; rfl, fun v => ?_⟩
  rw [solves_iff checked, solves_iff checked']
  rcases same.cases with ⟨x, y, value, value', rfl⟩ | ⟨e, e', failed, failed'⟩
  · rw [value, value']
  · rw [failed, failed']
    exact iff_of_false (fun ⟨_, wrong, _⟩ => nomatch wrong) fun ⟨_, wrong, _⟩ => nomatch wrong

/-- The canonical forms of the samples. -/
theorem checked_roots :
    (canonical (Session.start Setup.standard).setup.constants ['8', '*']).outcome = .ok ['8', '*'] ∧
    ((Session.start Setup.standard).setup.checked ['8', '*', '√', '0', '/', '4']).outcome =
      .ok ['8', '*', '(', '2', ')', '˅', '0', '/', '4'] ∧
    ((Session.start Setup.standard).setup.checked ['2', '^', '√', '0']).outcome =
      .ok ['2', '^', '(', '2', ')', '˅', '0'] ∧
    ((Session.start Setup.standard).setup.checked ['2', '^', '(', '√', '0', ')']).outcome =
      .ok ['2', '^', '(', '(', '2', ')', '˅', '0', ')'] := by
  decide +kernel

/-- Between factors and in parentheses the square root of zero has the same solutions. -/
theorem Session.solves_root_between :
    ((Session.start Setup.standard).setup.checked
      ['8', '*', '(', '√', '0', ')', '/', '4']).outcome.isOk = true ∧
    ∀ v, (Session.start Setup.standard).Solves [] ['8', '*', '√', '0', '/', '4'] v ↔
      (Session.start Setup.standard).Solves [] ['8', '*', '(', '√', '0', ')', '/', '4'] v := by
  obtain ⟨written, checked, _⟩ := checked_roots
  have apart : PowersApart ['8', '*'] := by
    intro s operator lead shape _
    have member : operator.symbol ∈ ['8', '*'] := by
      rw [shape]
      simp
    cases operator <;> first | decide | exact absurd member (by decide)
  have nameless : ∀ c ∈ ['8', '*'].getLast?, c.isAlpha = false ∧ c ≠ indexMark := by
    rintro c ⟨⟩
    decide
  have leaves : LeavesOperand ['/', '4'] := (leavesOperand_cons '/').2 (.inr rfl)
  refine Session.solves_root (Session.start Setup.standard) [] (g := '√') rfl zeroRadicand
    (fun x solved => ?_) written nameless apart leaves checked ?_
  · rw [root_zeroRadicand] at solved
    cases solved
    decide
  · rintro ⟨group, s, w, around, flat, calls, signs⟩
    obtain rfl : group = ['8', '*'] ++ (rootText '√' zeroRadicand ++ ['/', '4']) :=
      around.eq_whole (by decide) (by decide)
    have text : Flattens ⟨[], (Session.start Setup.standard).setup.angles⟩
        (['8', '*'] ++ (rootText '√' zeroRadicand ++ ['/', '4']))
        (.ok (['8', '*'] ++ ((rootOperation '√' zeroRadicand).text ++ ['/', '4']))) :=
      (flattens_of_flat (t := ['8', '*']) (by decide) (by decide)).append
        ((flattens_rootText rfl zeroRadicand).append
          (flattens_of_flat (t := ['/', '4']) (by decide) (by decide)))
    obtain rfl := Except.ok.inj (flat.unique text)
    rw [solveCalls_of_letterless (by unfold Letterless; decide)] at calls
    obtain rfl := Except.ok.inj calls
    obtain ⟨c, member, sign⟩ := signs.exists_sign
    have signless : ∀ c ∈ ['8', '*'] ++ ((rootOperation '√' zeroRadicand).text ++ ['/', '4']),
        isSign c = false := by decide
    exact Bool.false_ne_true ((signless c member).symm.trans sign)

/-- A power in front of a root sign takes its index for the exponent: two squared is the index of a root
of zero, not the exponent that the square root of zero is. -/
theorem Session.not_solves_root_of_power :
    ((Session.start Setup.standard).setup.checked ['2', '^', '√', '0']).outcome.isOk = true ∧
    (Session.start Setup.standard).Solves [] ['2', '^', '(', '√', '0', ')'] 1 ∧
    ¬ (Session.start Setup.standard).Solves [] ['2', '^', '√', '0'] 1 := by
  obtain ⟨_, _, checked, checked'⟩ := checked_roots
  refine ⟨by rw [checked]; rfl, ?_, ?_⟩
  · rw [Session.solves_iff checked']
    have value := solveExpression_powerOfRoot ⟨[], (Session.start Setup.standard).setup.angles⟩
    exact ⟨1, value, Display.round_of_isWhole (by decide) isWhole_one⟩
  · rw [Session.solves_iff checked]
    rintro ⟨x, value, rounded⟩
    have folded := rootOfPower.solveExpression_setAside
      ⟨[], (Session.start Setup.standard).setup.angles⟩
    change Matches _ (solveExpression _ ['2', '^', '(', '2', ')', '˅', '0']).outcome _ at folded
    rw [value] at folded
    obtain ⟨_, state, same, aside, alike⟩ | ⟨_, _, failed, _⟩ := folded.cases
    · obtain rfl := Except.ok.inj same
      have zero := Powers.setAside_root_of_zero magnitude_zeroOperand aside
      have none : magnitude x = 0 := alike.magnitude_eq.trans zero
      rw [Display.round_of_isWhole (by decide) (isWhole_of_zero (beq_zero_iff.2 none))] at rounded
      cases rounded
      exact absurd none (by decide)
    · exact nomatch failed

end Reckoner
