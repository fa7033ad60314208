import Reckoner.Proofs.Evaluation.Callable
import Reckoner.Proofs.Evaluation.Plain
import Reckoner.Proofs.Expression.Wrapped

set_option autoImplicit false

/- The value of an expression in parentheses. The parentheses send what the expression comes to through
one more segment. A segment that is an operand with a value is left as it is, so a value is never
lost; but a text that is no operand can still have calls and operations in it, and then a value comes
about that the expression alone does not have. -/
namespace Reckoner

variable {context : Context} {t u w p q r lead : Text} {x : Float} {rank : Rank}

/-- The names of variables are runs of letters, and none of them is that of a function. -/
def NamesVariables (bindings : Bindings) : Prop :=
  ∀ name, bindings.has name = true → name ≠ [] ∧ Letters name ∧ Function.ofName? name = none

def segmentValue (context : Context) (u : Text) : Except Failure Float :=
  (solveSegment context u).outcome.bind fun w => (resolveOperand context w).mapError .fault

/-- The groups of an expression leave a text that is read as a variable without a value, but that has
the given value when it is solved as a segment again. -/
def ValuedAgain (context : Context) (t : Text) (x : Float) : Prop :=
  ∃ w operand name, (solveGroups context [] [] (t ++ [')'])).outcome = .ok w ∧
    resolveOperand context w = .error (.unknownVariable operand name) ∧
    segmentValue context w = .ok x

theorem pairwise_append_of_bare (bare : Bare p) (other : ∀ c ∈ q, isOperator c = false) :
    (p ++ q).Pairwise fun c d => isOperandChar c = true → isOperator d = false := by
  refine List.pairwise_append.2 ⟨?_, ?_, fun _ _ d member _ => other d member⟩
  · exact List.pairwise_of_forall_mem_list fun c member _ _ inside =>
      absurd inside (by simp [bare c member])
  · exact List.pairwise_of_forall_mem_list fun _ _ d member _ => other d member

/-- There is no operation in a text with its operators in front of all its operand characters. -/
theorem findOperation?_eq_none
    (order : t.Pairwise fun c d => isOperandChar c = true → isOperator d = false) (rank : Rank) :
    findOperation? rank t = none := by
  cases found : findOperation? rank t with
  | none => rfl
  | some result =>
    obtain ⟨before, operation, after⟩ := result
    obtain ⟨shape, ⟨opening, row, closing, left, _, solid, nonempty, _⟩, _⟩ :=
      findOperation?_operands found
    obtain ⟨c, s, rfl⟩ := List.exists_cons_of_ne_nil nonempty
    have operator : isOperator operation.operator.symbol = true := isOperator_iff.2 ⟨_, rfl⟩
    have apart : isOperator operation.operator.symbol = false := by
      rw [shape, left] at order
      have behind := (List.pairwise_append.1 order).2.1
      apply (List.pairwise_append.1 behind).2.2 c (by simp) _ (.head _)
      exact solid c (.head _)
    rw [operator] at apart
    contradiction

theorem markValue_eq (shape : bareOperand u = lead ++ r) :
    markValue u = openMark :: (lead ++ (r ++ [closeMark])) := by
  unfold markValue
  rw [shape, List.cons_append, List.append_assoc]

theorem bareOperand_markValue (u : Text) : bareOperand (markValue u) = bareOperand u := by
  rw [bareOperand, stripMarks_markValue]
  exact reduceSigns_reduceSigns _

theorem markValue_markValue (u : Text) : markValue (markValue u) = markValue u := by
  change openMark :: bareOperand (markValue u) ++ [closeMark] = _
  rw [bareOperand_markValue]
  rfl

theorem resolveOperand_markValue (context : Context) (u : Text) :
    resolveOperand context (markValue u) = resolveOperand context u := by
  unfold resolveOperand
  rw [bareOperand_markValue]

/-- A text without calls and operations is left as it is, but for its marks. -/
theorem solveSegment_of_none (calls : (solveCalls context [] u).outcome = .ok u)
    (nothing : ∀ rank, findOperation? rank u = none) :
    (solveSegment context u).outcome = .ok (markValue u) := by
  rw [solveSegment_outcome, calls]
  simp only [Except.bind, solveOperations_outcome, solveRank_of_none (nothing _)]
  rfl

theorem solveOperations_tameOperand (h : IsTameOperand u) :
    (solveOperations context u).outcome = .ok u := by
  have valid : Link.Valid ⟨none, [], u⟩ := ⟨isLead_nil, h, nofun⟩
  exact solveOperations_single valid rfl

theorem solveSegment_tameOperand (h : IsTameOperand u) :
    (solveSegment context u).outcome = .ok (markValue u) := by
  have valid : Link.Valid ⟨none, [], u⟩ := ⟨isLead_nil, h, nofun⟩
  exact solveSegment_single valid rfl

theorem IsLead.bare (sign : IsLead lead) : Bare lead := fun c member =>
  not_isOperandChar_of_isSign (sign.signs c member)

/-- A numeral in marks, which may be one in the digits of another script. -/
theorem solveSegment_digits (sign : IsLead lead) (shape : bareOperand u = lead ++ r)
    (digits : ∀ c ∈ r, isDecimalDigit c = true ∨ c = '.') :
    (solveSegment context (markValue u)).outcome = .ok (markValue (markValue u)) := by
  rw [markValue_eq shape]
  have opening : Bare (openMark :: lead) := List.forall_mem_cons.2 ⟨by decide, sign.bare⟩
  apply solveSegment_of_none
  · apply congrArg Traced.outcome (solveCalls_of_letterless ?_)
    refine List.forall_mem_cons.2 ⟨by decide, List.forall_mem_append.2 ⟨sign.not_isAlpha,
      List.forall_mem_append.2 ⟨fun c member => ?_, by decide⟩⟩⟩
    rw [Bool.eq_false_iff]
    intro letter
    rcases digits c member with digit | rfl
    · rw [isDecimalDigit_of_isAlpha letter] at digit
      contradiction
    · contradiction
  · refine findOperation?_eq_none (pairwise_append_of_bare (q := r ++ [closeMark]) opening
      (List.forall_mem_append.2 ⟨fun c member => ?_, by decide⟩))
    rw [Bool.eq_false_iff]
    intro operator
    obtain ⟨o, rfl⟩ := isOperator_iff.1 operator
    rcases digits _ member with digit | point <;> cases o <;> contradiction

theorem Numeral.mem_of_fixed? {d : Decimal} (read : Numeral.fixed? r = some (d, [])) :
    ∀ c ∈ r, isDecimalDigit c = true ∨ c = '.' := by
  have whole : Numeral.digits r ++ Numeral.afterDigits r = r := List.takeWhile_append_dropWhile
  have digit {r : Text} : ∀ c ∈ Numeral.digits r, isDecimalDigit c = true :=
    List.all_eq_true.1 List.all_takeWhile
  unfold Numeral.fixed? at read
  rw [← whole]
  refine List.forall_mem_append.2 ⟨fun c member => .inl (digit c member), ?_⟩
  simp only at read
  split at read
  next s shape =>
    have places : Numeral.digits s ++ Numeral.afterDigits s = s := List.takeWhile_append_dropWhile
    split at read
    · contradiction
    · rw [(Prod.mk.inj (Option.some.inj read)).2, List.append_nil] at places
      rw [shape, ← places]
      exact List.forall_mem_cons.2 ⟨.inr rfl, fun c member => .inl (digit c member)⟩
  next other =>
    split at read
    · contradiction
    · rw [(Prod.mk.inj (Option.some.inj read)).2]
      exact nofun

theorem splitSign_shape (t : Text) : ∃ lead, IsLead lead ∧ t = lead ++ (Numeral.splitSign t).2 := by
  unfold Numeral.splitSign
  split
  · exact ⟨['-'], .inr (.inr rfl), rfl⟩
  · exact ⟨['+'], .inr (.inl rfl), rfl⟩
  · exact ⟨[], isLead_nil, rfl⟩

theorem signedName_shape (t : Text) : ∃ lead, IsLead lead ∧ t = lead ++ (signedName t).2 := by
  unfold signedName
  split
  next c d r =>
    split
    next sign => exact ⟨[c], isLead_of_isSign sign, rfl⟩
    next => exact ⟨[], isLead_nil, rfl⟩
  next => exact ⟨[], isLead_nil, rfl⟩

theorem signedName_of_unsigned (unsigned : startsWith isSign t = false) :
    signedName t = (false, t) := by
  rcases t with _ | ⟨c, _ | ⟨d, r⟩⟩
  · rfl
  · rfl
  · have head : isSign c = false := unsigned
    rw [signedName, head, if_neg Bool.false_ne_true]

/-- An operand that has a value is a numeral, or a row in which no call is seen. -/
theorem exists_row_of_value (names : NamesVariables context.bindings)
    (value : resolveOperand context u = .ok x) :
    ∃ lead r, IsLead lead ∧ bareOperand u = lead ++ r ∧
      (IsTame r ∨ ∀ c ∈ r, isDecimalDigit c = true ∨ c = '.') := by
  unfold resolveOperand at value
  simp only at value
  cases read : Numeral.literal? (bareOperand u) with
  | some y =>
    obtain ⟨lead, sign, shape⟩ := splitSign_shape (bareOperand u)
    refine ⟨lead, _, sign, shape, ?_⟩
    unfold Numeral.literal? at read
    simp only at read
    split at read
    next infinite =>
      rw [infinite]
      exact .inl isTame_infinityName
    next =>
      split at read
      next d whole => exact .inr (Numeral.mem_of_fixed? whole)
      next => contradiction
  | none =>
    obtain ⟨lead, sign, shape⟩ := signedName_shape (bareOperand u)
    refine ⟨lead, _, sign, shape, .inl ?_⟩
    rw [read] at value
    simp only at value
    split at value
    next y found =>
      obtain ⟨binding, bound, _⟩ := Option.bind_eq_some_iff.1 found
      have has : context.bindings.has (signedName (bareOperand u)).2 = true := by
        rw [Table.has, bound]
        rfl
      obtain ⟨nonempty, letters, other⟩ := names _ has
      exact isTame_letters nonempty letters other
    next => contradiction

/-- An operand that has a value is left as it is when it is solved again. -/
theorem solveSegment_of_value (names : NamesVariables context.bindings)
    (value : resolveOperand context u = .ok x) :
    (solveSegment context (markValue u)).outcome = .ok (markValue (markValue u)) := by
  obtain ⟨lead, r, sign, shape, tame | digits⟩ := exists_row_of_value names value
  · apply solveSegment_tameOperand
    rw [markValue_eq shape]
    exact .marked sign tame
  · exact solveSegment_digits sign shape digits

theorem segmentValue_of_value (names : NamesVariables context.bindings)
    (value : resolveOperand context (markValue u) = .ok x) :
    segmentValue context (markValue u) = .ok x := by
  have inner : resolveOperand context u = .ok x := by rwa [← resolveOperand_markValue]
  unfold segmentValue
  rw [solveSegment_of_value names inner]
  simp only [Except.bind]
  rw [resolveOperand_markValue]
  exact mapError_eq_ok.2 value

theorem error_of_resolveOperand {f : Fault} (failed : resolveOperand context u = .error f) :
    ∃ operand name, f = .unknownVariable operand name := by
  unfold resolveOperand at failed
  simp only at failed
  split at failed
  · contradiction
  · split at failed
    · contradiction
    · cases failed
      exact ⟨_, _, rfl⟩

theorem solveExpression_eq_ok_iff : (solveExpression context t).outcome = .ok x ↔
    ∃ w, (solveGroups context [] [] (t ++ [')'])).outcome = .ok w ∧
      resolveOperand context w = .ok x := by
  rw [solveExpression_outcome]
  constructor
  · intro value
    obtain ⟨w, groups, resolved⟩ := bind_eq_ok value
    exact ⟨w, groups, mapError_eq_ok.1 resolved⟩
  · rintro ⟨w, groups, resolved⟩
    rw [groups]
    exact mapError_eq_ok.2 resolved

/-- The groups of an expression leave a value in marks. -/
theorem Balanced.solveGroups_marks (h : Balanced t)
    (groups : (solveGroups context [] [] (t ++ [')'])).outcome = .ok w) : ∃ u, w = markValue u := by
  obtain ⟨flat, flattens⟩ := h.flattens context
  rw [flattens.solveGroups] at groups
  obtain ⟨u, _, segment⟩ := bind_eq_ok groups
  exact solveSegment_marks segment

/-- In parentheses what the groups leave is one more segment. -/
theorem Flattens.solveExpression_wrapped {flat : Except Failure Text} (h : Flattens context t flat) :
    (Reckoner.solveExpression context (wrapped t)).outcome =
      (Reckoner.solveGroups context [] [] (t ++ [')'])).outcome.bind (segmentValue context) := by
  unfold wrapped
  rw [h.group.solveExpression, h.solveGroups]
  cases flat <;> rfl

/-- In parentheses an expression has the value that it has without, and beside that only one that
comes about when what its groups leave is solved again. -/
theorem Balanced.solveExpression_wrapped_iff (h : Balanced t)
    (names : NamesVariables context.bindings) :
    (solveExpression context (wrapped t)).outcome = .ok x ↔
      (solveExpression context t).outcome = .ok x ∨ ValuedAgain context t x := by
  obtain ⟨flat, flattens⟩ := h.flattens context
  rw [flattens.solveExpression_wrapped, solveExpression_eq_ok_iff]
  constructor
  · intro value
    obtain ⟨w, groups, again⟩ := bind_eq_ok value
    obtain ⟨u, rfl⟩ := h.solveGroups_marks groups
    cases resolved : resolveOperand context (markValue u) with
    | ok y =>
      rw [segmentValue_of_value names resolved] at again
      cases again
      exact .inl ⟨_, groups, resolved⟩
    | error f =>
      obtain ⟨operand, name, rfl⟩ := error_of_resolveOperand resolved
      exact .inr ⟨_, operand, name, groups, resolved, again⟩
  · rintro (⟨w, groups, resolved⟩ | ⟨w, operand, name, groups, _, again⟩)
    · obtain ⟨u, rfl⟩ := h.solveGroups_marks groups
      rw [groups]
      exact segmentValue_of_value names resolved
    · rw [groups]
      exact again

/-- Solving a marked word again fails or leaves it as it is. -/
theorem IsPlainOperand.segmentValue (h : IsPlainOperand w)
    (again : Reckoner.segmentValue context w = .ok x) : resolveOperand context w = .ok x := by
  unfold Reckoner.segmentValue at again
  obtain ⟨v, segment, resolved⟩ := bind_eq_ok again
  have calls : CallsFail context w ∨ CallsLeave context w w := h.calls
  rcases calls with ⟨f, fails⟩ | leaves
  · have failed := fails [] [] (.inl rfl)
    rw [List.append_nil] at failed
    rw [solveSegment_outcome, failed] at segment
    contradiction
  · rw [solveSegment_of_none leaves.alone h.operand.findOperation?_alone] at segment
    cases segment
    rw [resolveOperand_markValue] at resolved
    exact mapError_eq_ok.1 resolved

/-- Where only calls stand next to parentheses, no value comes about by solving again. -/
theorem Accepted.not_valuedAgain (h : Accepted t) (names : NamesApart t)
    (calls : CallsFunctions context t) : ¬ ValuedAgain context t x := by
  rintro ⟨w, operand, name, groups, failed, again⟩
  rcases (h.isWritten_calls names calls).solveExpression segmentsKeep_callable
    (fun _ atom => atom.isCallable) (fun _ call => call.flat) with ⟨e, error, _⟩ | ⟨ls, chain, same⟩
  · rw [groups] at error
    contradiction
  · rw [same] at groups
    rw [(chain.isMarked groups).plain.segmentValue again] at failed
    contradiction

section Beside

variable {m n : Name} {y : Text} {a b : Float}

/-- A variable, and directly behind it the opposite of another one as a group. -/
def besideOpposite (m n : Name) : Text := m.text ++ '(' :: '-' :: (n.text ++ [')'])

def joinedText (m n : Name) : Text := m.text ++ '-' :: n.text

theorem bareOperand_beside (row : IsRow y) (n : Name) :
    bareOperand (y ++ markValue ('-' :: n.text)) = y ++ '-' :: n.text := by
  have opposite : bareOperand (['-'] ++ n.text) = ['-'] ++ n.text :=
    bareOperand_lead_row (.inr (.inr rfl)) n.isTame.row
  have reduced : reduceSigns ('-' :: n.text) = '-' :: n.text := by
    rw [← List.singleton_append, reduceSigns_append_row _ n.isTame.row]
    rfl
  rw [bareOperand, stripMarks_append, stripMarks_row row.2, stripMarks_markValue,
    ← List.singleton_append, opposite,
    reduceSigns_append_of_no_signs fun c member => isSign_of_isOperandChar (row.2 c member),
    List.singleton_append, reduced]

/-- What the groups leave is the name with the value of the group directly behind it. -/
theorem flattens_beside (letters : Letters y) (n : Name) :
    Flattens context (y ++ '(' :: '-' :: (n.text ++ [')'])) (.ok (y ++ markValue ('-' :: n.text))) := by
  have front : Flattens context y (.ok y) :=
    flattens_of_flat (flat_of_letters letters).1 (flat_of_letters letters).2
  have inner : Flattens context ('-' :: n.text) (.ok ('-' :: n.text)) := by
    refine flattens_of_flat (fun member => ?_) fun member => ?_
    · exact (flat_of_letters n.letters).1 ((List.mem_cons.1 member).resolve_left (by decide))
    · exact (flat_of_letters n.letters).2 ((List.mem_cons.1 member).resolve_left (by decide))
  have valid : Link.Valid ⟨none, ['-'], n.text⟩ := ⟨.inr (.inr rfl), .row n.isTame, nofun⟩
  have segment : (solveSegment context ('-' :: n.text)).outcome = .ok (markValue ('-' :: n.text)) :=
    solveSegment_single valid rfl
  have whole := front.append inner.group
  simp only [Except.bind, Except.map, segment] at whole
  exact whole

theorem markValue_beside (row : IsRow y) (n : Name) : markValue (y ++ markValue ('-' :: n.text)) =
    openMark :: (y ++ '-' :: n.text ++ [closeMark]) := by
  have opened : markValue (y ++ markValue ('-' :: n.text)) =
      openMark :: bareOperand (y ++ markValue ('-' :: n.text)) ++ [closeMark] := rfl
  rw [opened, bareOperand_beside row, List.cons_append]

/-- There are no calls and no operations in it. -/
theorem solveSegment_beside (tame : IsTame y) (n : Name) :
    (solveSegment context (y ++ markValue ('-' :: n.text))).outcome =
      .ok (openMark :: (y ++ '-' :: n.text ++ [closeMark])) := by
  have sign : IsLead ['-'] := .inr (.inr rfl)
  have row := n.isTame.row
  have marks : markValue ('-' :: n.text) = openMark :: (['-'] ++ (n.text ++ [closeMark])) :=
    markValue_lead sign row
  have marked : IsTameOperand (markValue ('-' :: n.text)) := by
    rw [marks]
    exact .marked sign n.isTame
  have missed : argument? (markValue ('-' :: n.text)) = none := by
    have call : argument? (markValue (['-'] ++ n.text) ++ []) = none :=
      argument?_marked_of_not sign row n.not_isArgumentSize []
    rwa [List.append_nil] at call
  have calls : (solveCalls context [] (y ++ markValue ('-' :: n.text))).outcome =
      .ok (y ++ markValue ('-' :: n.text)) := by
    have behind : (solveCalls context y (markValue ('-' :: n.text) ++ [])).outcome = _ :=
      marked.solveCalls (.inl rfl) y
    rw [solveCalls_of_letterless letterless_nil, List.append_nil, List.append_nil] at behind
    rw [solveCalls_tame tame rfl missed []]
    exact behind
  have nothing (rank : Rank) : findOperation? rank (y ++ markValue ('-' :: n.text)) = none := by
    have front : findOperation? rank (y ++ markValue ('-' :: n.text)) = _ :=
      (IsOperand.row tame.row).findOperation? (marks ▸ ⟨rfl, rfl⟩) (marks ▸ rfl)
    rw [front, marked.operand.findOperation?_alone]
    rfl
  rw [solveSegment_of_none calls nothing, markValue_beside tame.row]

/-- The whole is read as one name, which no variable has. -/
theorem resolveOperand_joined (names : NamesVariables context.bindings) (m n : Name)
    (shape : bareOperand u = joinedText m n) :
    resolveOperand context u = .error (.unknownVariable (joinedText m n) (joinedText m n)) := by
  obtain ⟨c, s, text⟩ := List.exists_cons_of_ne_nil m.nonempty
  have letter : c.isAlpha = true := m.letters c (text ▸ .head _)
  have joined : joinedText m n = c :: (s ++ '-' :: n.text) := by
    rw [joinedText, text, List.cons_append]
  have inside : '-' ∈ joinedText m n := by simp [joinedText]
  have literal : Numeral.literal? (joinedText m n) = none := by
    rw [joined] at inside ⊢
    apply Numeral.literal?_of_letter letter
    intro same
    rw [same] at inside
    exact absurd inside (by decide)
  have name : signedName (joinedText m n) = (false, joinedText m n) := by
    apply signedName_of_unsigned
    rw [joined]
    exact isSign_of_isOperandChar (isOperandChar_of_isAlpha letter)
  have free : context.bindings.get? (joinedText m n) = none := by
    cases found : context.bindings.get? (joinedText m n) with
    | none => rfl
    | some binding =>
      have has : context.bindings.has (joinedText m n) = true := by
        rw [Table.has, found]
        rfl
      have letters := (names _ has).2.1
      exact absurd (letters '-' inside) (by decide)
  unfold resolveOperand
  simp only [shape, literal, name, free]
  rfl

/-- There are no calls in it. -/
theorem solveCalls_joined (m n : Name) :
    (solveCalls context [] (openMark :: (joinedText m n ++ [closeMark]))).outcome =
      .ok (openMark :: (joinedText m n ++ [closeMark])) := by
  have shape : openMark :: (joinedText m n ++ [closeMark]) =
      [openMark] ++ (m.text ++ (['-'] ++ (n.text ++ [closeMark]))) := by simp [joinedText]
  have opening : Letterless [openMark] := by unfold Letterless; decide
  have closing : Letterless [closeMark] := by unfold Letterless; decide
  have minus : Letterless ['-'] := by unfold Letterless; decide
  rw [shape, solveCalls_append opening, solveCalls_tame m.isTame rfl rfl, solveCalls_append minus,
    solveCalls_tame n.isTame rfl rfl, solveCalls_of_letterless closing]
  simp

theorem Name.resolve (x : Name) {v : Float} (bound : context.bindings.get? x.text = some (.number v))
    (shape : bareOperand u = x.text) :
    resolveOperand context u = .ok v ∧ isNegatedNaN context.bindings u = false := by
  have value : rowValue? context x.text = some v := by
    unfold rowValue?
    rw [x.literal?_text, bound]
  exact resolveOperand_of_bareOperand isLead_nil x.isTame.row shape value

/-- A mark at one side of a name has no part in the value. -/
theorem solve_joined (first : context.bindings.get? m.text = some (.number a))
    (second : context.bindings.get? n.text = some (.number b)) (number : (a - b).isNaN = false) :
    Operation.solve context ⟨openMark :: m.text, .subtract, n.text ++ [closeMark]⟩ =
      .ok (a - b) := by
  have opened : bareOperand (openMark :: m.text) = m.text := by
    have strip : stripMarks (openMark :: m.text) = stripMarks m.text :=
      List.filter_cons_of_neg (by decide)
    rw [bareOperand, strip]
    exact bareOperand_row m.isTame.row
  have closed : bareOperand (n.text ++ [closeMark]) = n.text := by
    have strip : stripMarks (n.text ++ [closeMark]) = stripMarks n.text := by
      rw [stripMarks_append]
      exact List.append_nil _
    rw [bareOperand, strip]
    exact bareOperand_row n.isTame.row
  obtain ⟨left, negated⟩ := m.resolve first opened
  obtain ⟨right, _⟩ := n.resolve second closed
  have difference : combine .subtract a b = .ok (a - b) := by
    change (if (a - b).isNaN = true then _ else _) = _
    rw [number]
    rfl
  rw [← difference]
  unfold Operation.solve combine
  simp only [left, right, Operation.dividesNegatedNaN, negated, Bool.and_false, Bool.false_eq_true,
    if_false]
  rfl

theorem joinedText_marks (m n : Name) : openMark :: (joinedText m n ++ [closeMark]) =
    openMark :: (m.text ++ '-' :: (n.text ++ [closeMark])) := by
  rw [joinedText, List.append_assoc, List.cons_append]

/-- The operand in front of the minus takes the opening mark with it. -/
theorem leftOperand?_joined (m : Name) (rank : Rank) (s : Text) :
    leftOperand? rank (openMark :: (m.text ++ '-' :: s)) = some (openMark :: m.text, '-' :: s) := by
  have stop : Stops ('-' :: s) := stops_symbol .subtract _
  have unsigned : startsWith isSign (openMark :: (m.text ++ '-' :: s)) = false := rfl
  have opening : splitOpening (openMark :: (m.text ++ '-' :: s)) = ([openMark], m.text ++ '-' :: s) :=
    splitOpening_marked isLead_nil m.isTame.row _
  unfold leftOperand?
  rw [splitOne_of_not unsigned]
  simp only [ite_self, opening, closeOperand?_row m.isTame.row stop, List.nil_append,
    List.singleton_append]

/-- The operand behind the minus takes the closing mark with it. -/
theorem follow?_joined (n : Name) (rank : Rank) : follow? rank ('-' :: (n.text ++ [closeMark])) =
    if Operator.subtract.rank = rank then some (.subtract, n.text ++ [closeMark], []) else none := by
  have right : rightOperand? (n.text ++ [closeMark]) = some (n.text ++ [closeMark], []) := by
    unfold rightOperand?
    simp only [splitOne_of_not (n.isTame.row.unsigned _), splitOne_of_not (n.isTame.row.unmarked _),
      closeOperand?_marked n.isTame.row, List.nil_append]
  have symbol : follow? rank (Operator.subtract.symbol :: (n.text ++ [closeMark])) = _ :=
    follow?_symbol right
  exact symbol

/-- Outside of sums the search goes from one name to the other and finds nothing. -/
theorem findOperation?_joined_of_ne (m n : Name) (other : Operator.subtract.rank ≠ rank) :
    findOperation? rank (openMark :: (joinedText m n ++ [closeMark])) = none := by
  have stop : Stops ('-' :: (n.text ++ [closeMark])) := stops_symbol .subtract _
  have none := follow?_joined n rank
  rw [if_neg other] at none
  have minus : findOperation? rank ('-' :: (n.text ++ [closeMark])) = _ :=
    findOperation?_symbol other _
  rw [findOperation?_closed n.isTame.row rfl, findOperation?_nil] at minus
  rw [joinedText_marks,
    findOperation?_cons (by decide) (operationAt?_of_follow? (leftOperand?_joined m rank _) none),
    (IsOperand.row m.isTame.row).findOperation? stop none, minus]
  rfl

/-- The sum is the difference of the two names, each with the mark at its side. -/
theorem findOperation?_joined (m n : Name) :
    findOperation? .sum (openMark :: (joinedText m n ++ [closeMark])) =
      some ([], ⟨openMark :: m.text, .subtract, n.text ++ [closeMark]⟩, []) := by
  rw [joinedText_marks]
  apply findOperation?_of_found (List.cons_ne_nil _ _)
  rw [operationAt?_of_leftOperand? (leftOperand?_joined m .sum _), follow?_joined]
  rfl

/-- There is no other operation, and none in the difference once it is written down. -/
theorem solveOperations_joined (first : context.bindings.get? m.text = some (.number a))
    (second : context.bindings.get? n.text = some (.number b)) (number : (a - b).isNaN = false) :
    (solveOperations context (openMark :: (joinedText m n ++ [closeMark]))).outcome =
      .ok (Double.plain (a - b)) := by
  have powers : findOperation? .power (openMark :: (joinedText m n ++ [closeMark])) = none :=
    findOperation?_joined_of_ne m n (by decide)
  have products : findOperation? .product (openMark :: (joinedText m n ++ [closeMark])) = none :=
    findOperation?_joined_of_ne m n (by decide)
  have reduced : reduceSigns ([] ++ Double.plain (a - b) ++ []) = Double.plain (a - b) := by
    rw [List.nil_append, List.append_nil, reduceSigns_plain number]
  have last : findOperation? .sum (linksText [writtenLink (a - b)]) = none :=
    findOperation?_sum_last (valid_writtenLink _) rfl
  have written : linksText [writtenLink (a - b)] = Double.plain (a - b) := by
    rw [linksText_cons, linksText, List.append_nil, body_writtenLink number]
    rfl
  rw [written] at last
  rw [solveOperations_outcome]
  simp only [solveRank_of_none powers, solveRank_of_none products, Except.bind,
    solveRank_of_some (findOperation?_joined m n), solve_joined first second number, reduced,
    solveRank_of_none last]

/-- The variable and the group behind it are no expression with a value, but in parentheses they are
the difference. -/
theorem solveExpression_beside (names : NamesVariables context.bindings)
    (first : context.bindings.get? m.text = some (.number a))
    (second : context.bindings.get? n.text = some (.number b)) (number : (a - b).isNaN = false) :
    (solveExpression context (besideOpposite m n)).outcome =
        .error (.fault (.unknownVariable (joinedText m n) (joinedText m n))) ∧
      (solveExpression context (wrapped (besideOpposite m n))).outcome =
        .ok (if a - b == 0 then 0 else a - b) := by
  have flattens : Flattens context (besideOpposite m n) _ := flattens_beside m.letters n
  have marked : _ = openMark :: (joinedText m n ++ [closeMark]) := markValue_beside m.isTame.row n
  have groups : (solveGroups context [] [] (besideOpposite m n ++ [')'])).outcome =
      .ok (openMark :: (joinedText m n ++ [closeMark])) := by
    rw [flattens.solveGroups]
    exact solveSegment_beside m.isTame n
  have operand : bareOperand (openMark :: (joinedText m n ++ [closeMark])) = joinedText m n := by
    rw [← marked, bareOperand_markValue]
    exact bareOperand_beside m.isTame.row n
  have again : segmentValue context (openMark :: (joinedText m n ++ [closeMark])) =
      .ok (if a - b == 0 then 0 else a - b) := by
    unfold segmentValue
    rw [solveSegment_outcome, solveCalls_joined]
    simp only [Except.bind, solveOperations_joined first second number, Except.mapError, Except.map]
    rw [← written_settled number]
    exact resolveOperand_markValue_plain context number
  constructor
  · rw [solveExpression_outcome, groups]
    simp only [Except.bind, resolveOperand_joined names m n operand]
    rfl
  · rw [flattens.solveExpression_wrapped, groups]
    exact again

end Beside

end Reckoner
