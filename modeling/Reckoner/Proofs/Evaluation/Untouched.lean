import Reckoner.Proofs.Evaluation.Recursion
import Reckoner.Proofs.Evaluation.Wrapped

set_option autoImplicit false

/- What an evaluation leaves of an expression in which it finds nothing to solve. Each call and each
operation that is solved leaves a number in the text, and no later step takes a number away without
leaving another one. So a text without numbers is the expression, but for parentheses, marks and
signs in a row. -/
namespace Reckoner

open Double

variable {context : Context} {t u v : Text} {c : Char} {x : Float} {rank : Rank}

/-- A text by which a number is known: a digit, or the name of infinity. -/
inductive IsNumberSign : Text → Prop
  | digit {c : Char} (digit : c.isDigit = true) : IsNumberSign [c]
  | infinity : IsNumberSign infinityName

/-- Whether there is a number anywhere in a text. -/
def HoldsNumber (t : Text) : Prop := ∃ s, IsNumberSign s ∧ s <:+: t

theorem IsNumberSign.row {s : Text} (h : IsNumberSign s) : IsRow s := by
  cases h with
  | digit digit =>
    refine ⟨List.cons_ne_nil _ _, ?_⟩
    intro d member
    rw [List.mem_singleton.1 member]
    exact isOperandChar_of_isDigit digit
  | infinity =>
    exact isTame_infinityName.row

theorem HoldsNumber.of_infix (h : HoldsNumber t) (part : t <:+: u) : HoldsNumber u := by
  obtain ⟨s, number, inside⟩ := h
  exact ⟨s, number, inside.trans part⟩

theorem HoldsNumber.append_left (h : HoldsNumber t) (u : Text) : HoldsNumber (u ++ t) :=
  h.of_infix (List.suffix_append u t).isInfix

theorem HoldsNumber.append_right (h : HoldsNumber t) (u : Text) : HoldsNumber (t ++ u) :=
  h.of_infix (List.prefix_append t u).isInfix

theorem HoldsNumber.reduceSigns (h : HoldsNumber t) : HoldsNumber (reduceSigns t) := by
  obtain ⟨s, number, a, b, rfl⟩ := h
  refine ⟨s, number, Reckoner.reduceSigns a, Reckoner.reduceSigns b, ?_⟩
  rw [List.append_assoc, List.append_assoc, number.row.reduceSigns_append]

theorem HoldsNumber.stripMarks (h : HoldsNumber t) : HoldsNumber (stripMarks t) := by
  obtain ⟨s, number, a, b, rfl⟩ := h
  refine ⟨s, number, Reckoner.stripMarks a, Reckoner.stripMarks b, ?_⟩
  rw [stripMarks_append, stripMarks_append, stripMarks_row number.row.2]

theorem HoldsNumber.bareOperand (h : HoldsNumber t) : HoldsNumber (bareOperand t) :=
  h.stripMarks.reduceSigns

theorem HoldsNumber.markValue (h : HoldsNumber t) : HoldsNumber (markValue t) :=
  (h.bareOperand.append_left [openMark]).append_right [closeMark]

/-- A number is known where it is written. -/
theorem holdsNumber_plain (number : x.isNaN = false) : HoldsNumber (plain x) := by
  rcases plain_cases number with ⟨_, numeral⟩ | same | same
  · obtain ⟨sign, whole, places, same, _, front, _⟩ := numeral
    obtain ⟨c, r, rfl⟩ := List.exists_cons_of_ne_nil front.ne_nil
    refine ⟨[c], .digit (front.row c (.head _)), sign, r ++ places, ?_⟩
    rw [same]
    simp
  · exact ⟨infinityName, .infinity, same ▸ List.infix_refl _⟩
  · exact ⟨infinityName, .infinity, same ▸ (List.suffix_cons '-' _).isInfix⟩

theorem solveCalls_untouched {done rest : Text}
    (solved : (solveCalls context done rest).outcome = .ok u) :
    u = done ++ rest ∨ HoldsNumber u := by
  induction rest using calls_induction generalizing done with
  | letterless t bare =>
    rw [solveCalls_of_letterless bare] at solved
    cases solved
    exact .inl rfl
  | named p name t bare nonempty letters stop missed ih =>
    rw [solveCalls_of_name bare nonempty letters stop missed] at solved
    split at solved
    · contradiction
    · refine (ih solved).imp_left fun same => ?_
      rw [same]
      simp
  | called p name t argument tail bare nonempty letters stop found ih ihInfinite =>
    rw [solveCalls_of_call bare nonempty letters stop found] at solved
    obtain ⟨x, called, solved⟩ := bind_eq_ok solved
    right
    split at solved
    · rcases ihInfinite solved with rfl | number
      · exact ⟨infinityName, .infinity, _, tail, List.append_assoc ..⟩
      · exact number
    · rcases ih solved with rfl | number
      · exact ((holdsNumber_plain (solveCall_number called)).append_left _).append_right tail
      · exact number

theorem solveRank_untouched (solved : (solveRank context rank t).outcome = .ok u) :
    u = t ∨ HoldsNumber u := by
  fun_induction solveRank context rank t with
  | case1 =>
    cases solved
    exact .inl rfl
  | case2 t before operation after found ih =>
    rw [Traced.outcome_bind] at solved
    obtain ⟨x, operated, solved⟩ := bind_eq_ok solved
    right
    have written := holdsNumber_plain (Operation.solve_number operated)
    rcases ih x solved with rfl | number
    · exact ((written.append_left before).append_right after).reduceSigns
    · exact number

theorem solveOperations_untouched (solved : (solveOperations context t).outcome = .ok u) :
    u = t ∨ HoldsNumber u := by
  rw [solveOperations_outcome] at solved
  obtain ⟨v, powers, solved⟩ := bind_eq_ok solved
  obtain ⟨w, products, sums⟩ := bind_eq_ok solved
  rcases solveRank_untouched sums with rfl | number
  · rcases solveRank_untouched products with rfl | number
    · exact solveRank_untouched powers
    · exact .inr number
  · exact .inr number

theorem solveSegment_untouched (solved : (solveSegment context t).outcome = .ok u) :
    u = markValue t ∨ HoldsNumber u := by
  rw [solveSegment_outcome] at solved
  obtain ⟨v, calls, solved⟩ := bind_eq_ok solved
  obtain ⟨w, operations, rfl⟩ := map_eq_ok solved
  rcases solveOperations_untouched (mapError_eq_ok.1 operations) with rfl | number
  · rcases solveCalls_untouched calls with rfl | number
    · exact .inl rfl
    · exact .inr number.markValue
  · exact .inr number.markValue

/-- A text as an operand, with its groups opened. -/
def ungrouped (t : Text) : Text := bareOperand (t.filter fun c => !(c == '(' || c == ')'))

theorem bareOperand_append (t u : Text) :
    bareOperand (t ++ u) = reduceSigns (bareOperand t ++ bareOperand u) := by
  unfold bareOperand
  rw [reduceSigns_append_reduceSigns, reduceSigns_reduceSigns_append, stripMarks_append]

theorem ungrouped_append (t u : Text) :
    ungrouped (t ++ u) = reduceSigns (ungrouped t ++ ungrouped u) := by
  unfold ungrouped
  rw [List.filter_append, bareOperand_append]

theorem ungrouped_of_flat (open' : '(' ∉ t) (close : ')' ∉ t) : ungrouped t = bareOperand t := by
  unfold ungrouped
  rw [List.filter_eq_self.2]
  intro c member
  have first : c ≠ '(' := fun same => open' (same ▸ member)
  have last : c ≠ ')' := fun same => close (same ▸ member)
  simp [first, last]

theorem ungrouped_group (t u : Text) :
    ungrouped ('(' :: (t ++ ')' :: u)) = reduceSigns (ungrouped t ++ ungrouped u) := by
  rw [← ungrouped_append]
  unfold ungrouped
  simp

theorem Nesting.flatten_untouched {tree : Nesting} (flat : (tree.flatten context).outcome = .ok u) :
    bareOperand u = ungrouped tree.text ∨ HoldsNumber u := by
  induction tree generalizing u with
  | nil =>
    cases flat
    exact .inl rfl
  | char c open' close rest ih =>
    obtain ⟨v, behind, rfl⟩ := exists_of_flatten_char flat
    rcases ih behind with same | number
    · left
      have first : ungrouped [c] = Reckoner.bareOperand [c] :=
        ungrouped_of_flat (by simpa using Ne.symm open') (by simpa using Ne.symm close)
      show Reckoner.bareOperand ([c] ++ v) = ungrouped ([c] ++ rest.text)
      rw [bareOperand_append, ungrouped_append, first, same]
    · exact .inr (number.append_left [c])
  | group inner rest ih ih' =>
    obtain ⟨w, value, v, before, closed, behind, rfl⟩ := exists_of_flatten_group flat
    rcases solveSegment_untouched closed with rfl | number
    · rcases ih before with same | number
      · rcases ih' behind with same' | number
        · left
          rw [text, ungrouped_group, bareOperand_append, bareOperand_markValue, same, same']
        · exact .inr (number.append_left _)
      · exact .inr (number.markValue.append_right v)
    · exact .inr (number.append_right v)

def OperatorsFirst (t : Text) : Prop :=
  t.Pairwise fun c d => isOperandChar c = true → isOperator d = false

theorem isOperator_of_isSign (sign : isSign c = true) : isOperator c = true := by
  simp [isOperator, sign]

theorem operatorless_attachSign (c : Char) (t : Text) :
    (∀ d ∈ attachSign c t, isOperator d = false) ↔ ∀ d ∈ c :: t, isOperator d = false := by
  cases t with
  | nil => rfl
  | cons d r =>
    rw [attachSign]
    split
    next signs =>
      obtain ⟨first, _⟩ := Bool.and_eq_true_iff.1 signs
      have whole := isOperator_of_isSign (isSign_combineSigns c d)
      constructor
      · intro none
        have absent := none _ (.head _)
        rw [whole] at absent
        contradiction
      · intro none
        have absent := none c (.head _)
        rw [isOperator_of_isSign first] at absent
        contradiction
    next => rfl

theorem operatorless_reduceSigns (t : Text) :
    (∀ d ∈ reduceSigns t, isOperator d = false) ↔ ∀ d ∈ t, isOperator d = false := by
  induction t with
  | nil => rfl
  | cons c t ih =>
    rw [reduceSigns_cons, operatorless_attachSign, List.forall_mem_cons, List.forall_mem_cons, ih]

theorem operatorsFirst_attachSign (c : Char) (t : Text) :
    OperatorsFirst (attachSign c t) ↔ OperatorsFirst (c :: t) := by
  have sign {e : Char} (sign : isSign e = true) (r : Text) :
      OperatorsFirst (e :: r) ↔ OperatorsFirst r := by
    unfold OperatorsFirst
    rw [List.pairwise_cons, and_iff_right]
    intro d _ operand
    rw [not_isOperandChar_of_isSign sign] at operand
    contradiction
  cases t with
  | nil => rfl
  | cons d r =>
    rw [attachSign]
    split
    next signs =>
      obtain ⟨first, second⟩ := Bool.and_eq_true_iff.1 signs
      rw [sign (isSign_combineSigns c d), sign first, sign second]
    next => rfl

theorem operatorsFirst_reduceSigns (t : Text) :
    OperatorsFirst (reduceSigns t) ↔ OperatorsFirst t := by
  induction t with
  | nil => rfl
  | cons c t ih =>
    rw [reduceSigns_cons, operatorsFirst_attachSign]
    unfold OperatorsFirst at ih ⊢
    rw [List.pairwise_cons, List.pairwise_cons, ih]
    apply and_congr_left
    intro _
    by_cases operand : isOperandChar c = true
    · simpa only [operand, true_implies] using operatorless_reduceSigns t
    · simp [operand]

/-- What is neither an operator nor an operand character is not asked for. -/
theorem operatorsFirst_filter {keep : Char → Bool}
    (kept : ∀ c, isOperandChar c = true ∨ isOperator c = true → keep c = true) (t : Text) :
    OperatorsFirst (t.filter keep) ↔ OperatorsFirst t := by
  unfold OperatorsFirst
  rw [List.pairwise_filter]
  constructor
  · intro pairs
    refine pairs.imp fun {c d} apart operand => ?_
    by_contra operator
    rw [Bool.not_eq_false] at operator
    rw [apart (kept c (.inl operand)) (kept d (.inr operator)) operand] at operator
    contradiction
  · intro pairs
    exact pairs.imp fun apart _ _ => apart

theorem operatorsFirst_bareOperand (t : Text) : OperatorsFirst (bareOperand t) ↔ OperatorsFirst t := by
  unfold bareOperand stripMarks
  rw [operatorsFirst_reduceSigns]
  apply operatorsFirst_filter
  intro c kind
  have first : c ≠ openMark := by
    rintro rfl
    exact absurd kind (by decide)
  have last : c ≠ closeMark := by
    rintro rfl
    exact absurd kind (by decide)
  simp [first, last]

theorem operatorsFirst_ungrouped (t : Text) : OperatorsFirst (ungrouped t) ↔ OperatorsFirst t := by
  unfold ungrouped
  rw [operatorsFirst_bareOperand]
  apply operatorsFirst_filter
  intro c kind
  have first : c ≠ '(' := by
    rintro rfl
    exact absurd kind (by decide)
  have last : c ≠ ')' := by
    rintro rfl
    exact absurd kind (by decide)
  simp [first, last]

/-- A row of digits and points that reads as a number has a digit. -/
theorem exists_digit_of_literal? {r : Text} (row : ∀ c ∈ r, isArgumentChar c = true)
    (value : Numeral.literal? r = some x) : ∃ c ∈ r, c.isDigit = true := by
  by_contra none
  have points (c : Char) (member : c ∈ r) : c = '.' := by
    have kind := row c member
    have other : c.isDigit ≠ true := fun digit => none ⟨c, member, digit⟩
    simpa [isArgumentChar, other] using kind
  have blank {s : Text} (all : ∀ c ∈ s, c = '.') : Numeral.digits s = [] := by
    cases s with
    | nil => rfl
    | cons c s =>
      rw [all c (.head _)]
      rfl
  cases r with
  | nil => contradiction
  | cons c s =>
    obtain rfl := points c (.head _)
    have rest := blank fun c member => points c (.tail _ member)
    have read : Numeral.fixed? ('.' :: s) = Option.none := by
      show (if ([] : Text).isEmpty && (Numeral.digits s).isEmpty then _ else _) = Option.none
      rw [rest]
      rfl
    unfold Numeral.literal? at value
    rw [show Numeral.splitSign ('.' :: s) = (false, '.' :: s) from rfl] at value
    simp only [read] at value
    split at value
    next same => exact absurd (List.cons.inj same).1 (by decide)
    next => contradiction

theorem holdsNumber_of_literal? {r : Text} (row : ∀ c ∈ r, isArgumentChar c = true)
    (value : Numeral.literal? r = some x) : HoldsNumber r := by
  obtain ⟨c, member, digit⟩ := exists_digit_of_literal? row value
  obtain ⟨a, b, rfl⟩ := List.append_of_mem member
  exact ⟨[c], .digit digit, a, b, by simp⟩

/-- An argument of which a call has a value is a number. -/
theorem holdsNumber_of_call {name argument tail : Text}
    (found : argument? t = some (argument, tail))
    (solved : solveCall context name argument = .ok x) : HoldsNumber argument := by
  obtain ⟨y, value⟩ : ∃ y, Numeral.literal? (stripMarks argument) = some y := by
    unfold solveCall at solved
    split at solved
    · contradiction
    · split at solved
      · contradiction
      next y value => exact ⟨y, value⟩
  rcases argument?_shape found with row | ⟨sign, size, rfl, lead, argumentSize⟩
  · rw [stripMarks_row fun c member => isOperandChar_of_isArgumentChar (row c member)] at value
    exact holdsNumber_of_literal? row value
  · apply HoldsNumber.append_left (u := openMark :: sign)
    apply HoldsNumber.append_right
    have inside : stripMarks (openMark :: (sign ++ (size ++ [closeMark]))) = sign ++ size := by
      show stripMarks (sign ++ (size ++ [closeMark])) = sign ++ size
      rw [stripMarks_append, stripMarks_append, stripMarks_lead lead,
        stripMarks_row argumentSize.row.2]
      exact congrArg (sign ++ ·) (List.append_nil size)
    rw [inside, literal?_lead lead argumentSize.row] at value
    obtain ⟨z, value, _⟩ := Option.map_eq_some_iff.1 value
    rcases argumentSize with rfl | ⟨_, row⟩
    · exact ⟨infinityName, .infinity, List.infix_refl _⟩
    · exact holdsNumber_of_literal? row value

theorem solveCalls_inert {done rest : Text} (none : ¬ HoldsNumber rest)
    (solved : (solveCalls context done rest).outcome = .ok u) : u = done ++ rest := by
  induction rest using calls_induction generalizing done with
  | letterless t bare =>
    rw [solveCalls_of_letterless bare] at solved
    cases solved
    rfl
  | named p name t bare nonempty letters stop missed ih =>
    rw [solveCalls_of_name bare nonempty letters stop missed] at solved
    split at solved
    · contradiction
    · have after : ¬ HoldsNumber t := fun number =>
        none ((number.append_left name).append_left p)
      rw [ih after solved]
      simp
  | called p name t argument tail bare nonempty letters stop found ih ihInfinite =>
    rw [solveCalls_of_call bare nonempty letters stop found] at solved
    obtain ⟨x, called, _⟩ := bind_eq_ok solved
    have number := holdsNumber_of_call found called
    rw [argument?_eq_append found] at none
    exact absurd (((number.append_right tail).append_left name).append_left p) none

theorem solveSegment_inert (order : OperatorsFirst t) (none : ¬ HoldsNumber t)
    (solved : (solveSegment context t).outcome = .ok u) : u = markValue t := by
  rw [solveSegment_outcome] at solved
  obtain ⟨v, calls, solved⟩ := bind_eq_ok solved
  obtain ⟨w, operations, rfl⟩ := map_eq_ok solved
  obtain rfl : v = t := solveCalls_inert none calls
  have operations := mapError_eq_ok.1 operations
  simp only [solveOperations_outcome, solveRank_of_none (findOperation?_eq_none order _),
    Except.bind] at operations
  cases operations
  rfl

theorem Nesting.flatten_inert {tree : Nesting} (order : OperatorsFirst tree.text)
    (none : ¬ HoldsNumber (ungrouped tree.text)) (flat : (tree.flatten context).outcome = .ok u) :
    bareOperand u = ungrouped tree.text := by
  induction tree generalizing u with
  | nil =>
    cases flat
    rfl
  | char c open' close rest ih =>
    obtain ⟨v, behind, rfl⟩ := exists_of_flatten_char flat
    have first : ungrouped [c] = Reckoner.bareOperand [c] :=
      ungrouped_of_flat (by simpa using Ne.symm open') (by simpa using Ne.symm close)
    have shape : (char c open' close rest).text = [c] ++ rest.text := rfl
    rw [shape, ungrouped_append] at none
    have after : ¬ HoldsNumber (ungrouped rest.text) := fun number =>
      none (number.append_left _).reduceSigns
    show Reckoner.bareOperand ([c] ++ v) = _
    rw [shape, bareOperand_append, ungrouped_append, first,
      ih (List.pairwise_cons.1 order).2 after behind]
  | group inner rest ih ih' =>
    obtain ⟨w, value, v, before, closed, behind, rfl⟩ := exists_of_flatten_group flat
    rw [text, ungrouped_group] at none
    rw [text] at order ⊢
    have whole := List.pairwise_append.1 (List.pairwise_cons.1 order).2
    have first := ih whole.1 (fun number => none (number.append_right _).reduceSigns) before
    have last := ih' (List.pairwise_cons.1 whole.2.1).2
      (fun number => none (number.append_left _).reduceSigns) behind
    have order' : OperatorsFirst w := by
      rw [← operatorsFirst_bareOperand, first, operatorsFirst_ungrouped]
      exact whole.1
    have none' : ¬ HoldsNumber w := fun number => by
      have inside := number.bareOperand
      rw [first] at inside
      exact none (inside.append_right _).reduceSigns
    rw [solveSegment_inert order' none' closed, bareOperand_append, bareOperand_markValue, first,
      last, ungrouped_group]

theorem solveGroups_outcome (tree : Nesting) :
    (solveGroups context [] [] (tree.text ++ [')'])).outcome = (tree.solve context).outcome := by
  have whole := congrArg Traced.outcome (@solveGroups_text context tree [] [] [')'])
  refine whole.trans ?_
  show (tree.flatten context >>= fun u =>
    solveGroups context [] (u.reverse ++ []) [')']).outcome = _
  rw [Traced.outcome_bind, Nesting.solve, Traced.outcome_bind]
  congr 1
  funext u
  rw [solveGroups, if_neg (by decide), if_pos rfl, Traced.outcome_bind, List.append_nil,
    List.reverse_reverse, Traced.outcome_bind]
  cases (solveSegment context u).outcome with
  | error e => rfl
  | ok v => exact congrArg Except.ok (List.append_nil v)

/-- What is left of an expression is the expression itself, if no number is in it. -/
theorem solveGroups_untouched (nested : WellNested t)
    (solved : (solveGroups context [] [] (t ++ [')'])).outcome = .ok u) :
    bareOperand u = ungrouped t ∨ HoldsNumber u := by
  obtain ⟨tree, rfl⟩ := nested.exists_nesting
  rw [solveGroups_outcome, Nesting.solve, Traced.outcome_bind] at solved
  obtain ⟨v, flat, segment⟩ := bind_eq_ok solved
  rcases solveSegment_untouched segment with rfl | number
  · rw [bareOperand_markValue]
    exact (Nesting.flatten_untouched flat).imp_right HoldsNumber.markValue
  · exact .inr number

/-- What is left of an expression is the expression itself, if there is nothing in it to solve. -/
theorem solveGroups_inert (nested : WellNested t) (order : OperatorsFirst (ungrouped t))
    (none : ¬ HoldsNumber (ungrouped t))
    (solved : (solveGroups context [] [] (t ++ [')'])).outcome = .ok u) :
    bareOperand u = ungrouped t := by
  obtain ⟨tree, rfl⟩ := nested.exists_nesting
  rw [solveGroups_outcome, Nesting.solve, Traced.outcome_bind] at solved
  obtain ⟨v, flat, segment⟩ := bind_eq_ok solved
  have same := Nesting.flatten_inert ((operatorsFirst_ungrouped _).1 order) none flat
  have order' : OperatorsFirst v := by
    rw [← operatorsFirst_bareOperand, same]
    exact order
  have none' : ¬ HoldsNumber v := fun number => none (same ▸ number.bareOperand)
  rw [solveSegment_inert order' none' segment, bareOperand_markValue, same]

end Reckoner
