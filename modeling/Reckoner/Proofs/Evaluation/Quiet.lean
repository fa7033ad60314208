import Reckoner.Proofs.Evaluation.Leftmost
import Reckoner.Proofs.Evaluation.Spots

set_option autoImplicit false

namespace Reckoner

open Double

variable {spot spot' spot'' : Spot} {c d : Char} {t u r x before after : Text} {marked : Bool}
  {rank : Rank} {op : Operation} {y : Float}

theorem Path.last (path : Path spot (t ++ [c]) spot') :
    ∃ middle, Path spot t middle ∧ Step middle c spot' := by
  obtain ⟨middle, first, last⟩ := path_append.1 path
  exact ⟨middle, first, path_singleton.1 last⟩

theorem Spot.operated_cases (spot : Spot) : spot.operated = .free ∨ spot.operated = .signed := by
  cases spot <;> simp [Spot.operated]

/-- What a row, an opening mark and a closing mark are behind. -/
theorem Step.reads (step : Step spot c spot') :
    (∀ marked name, spot' = .row marked name → isOperandChar c = true) ∧
      (spot' = .opened → c = openMark) ∧
      (spot' = .closed → c = closeMark ∧ ∃ marked name, spot = .row marked name) := by
  cases step with
  | start h | signed h | opened h => exact ⟨fun _ _ _ => h, nofun, nofun⟩
  | letter h => exact ⟨fun _ _ _ => isOperandChar_of_isAlpha h, nofun, nofun⟩
  | digit h _ _ => exact ⟨fun _ _ _ => isOperandChar_of_isArgumentChar h, nofun, nofun⟩
  | enter | behind _ => exact ⟨nofun, fun _ => rfl, nofun⟩
  | leave _ => exact ⟨nofun, nofun, fun _ => ⟨rfl, _, _, rfl⟩⟩
  | between _ _ next =>
    rcases spot.operated_cases with same | same
    all_goals
      rw [next, same]
      exact ⟨nofun, nofun, nofun⟩

theorem Path.of_row {name : Text} (path : Path .free t (.row marked name)) :
    endsInside false t = true := by
  rcases List.eq_nil_or_concat t with rfl | ⟨u, c, rfl⟩
  · cases path
  · rw [List.concat_eq_append] at path ⊢
    obtain ⟨_, _, step⟩ := path.last
    rw [endsInside_append]
    exact step.reads.1 _ _ rfl

theorem Path.of_opened (path : Path .free t .opened) : t.getLast? = some openMark := by
  rcases List.eq_nil_or_concat t with rfl | ⟨u, c, rfl⟩
  · cases path
  · rw [List.concat_eq_append] at path ⊢
    obtain ⟨_, _, step⟩ := path.last
    rw [List.getLast?_concat, step.reads.2.1 rfl]

theorem Path.of_closed (path : Path .free t .closed) :
    ∃ b, t = b ++ [closeMark] ∧ endsInside false b = true := by
  rcases List.eq_nil_or_concat t with rfl | ⟨u, c, rfl⟩
  · cases path
  · rw [List.concat_eq_append] at path
    obtain ⟨_, before, step⟩ := path.last
    obtain ⟨rfl, _, _, rfl⟩ := step.reads.2.2 rfl
    exact ⟨u, List.concat_eq_append, before.of_row⟩

theorem not_isBetween_openMark : ¬ isBetween openMark = true := by decide

/-- No opening mark stands behind another one, or behind the sign there. -/
theorem not_path_opened {lead : Text} (sign : IsLead lead) :
    ¬ Path .opened (lead ++ openMark :: u) spot := by
  have opened {spot' : Spot} : ¬ Step .opened openMark spot' := by
    intro step
    cases step with
    | opened h => exact absurd h (by decide)
    | between h _ _ => exact not_isBetween_openMark h
  have signed {spot' : Spot} : ¬ Step .signed openMark spot' := by
    intro step
    cases step with
    | signed h => exact absurd h (by decide)
    | between h _ _ => exact not_isBetween_openMark h
  have behind {c : Char} (sign : isSign c = true) : ¬ Path .opened (c :: openMark :: u) spot := by
    intro path
    obtain ⟨middle, step, rest⟩ := path_cons.1 path
    obtain ⟨rfl, _⟩ := step.of_between (isBetween_of_isSign sign)
    obtain ⟨_, next, _⟩ := path_cons.1 rest
    exact signed next
  intro path
  rcases sign with rfl | rfl | rfl
  · obtain ⟨_, step, _⟩ := path_cons.1 path
    exact opened step
  · exact behind rfl path
  · exact behind rfl path

/-- What a left operand can begin with. -/
theorem leftOperand?_head {left tail : Text} (h : leftOperand? rank (c :: t) = some (left, tail)) :
    isOperandChar c = true ∨ c = openMark ∨ isSign c = true := by
  by_contra other
  simp only [not_or, Bool.not_eq_true] at other
  rw [leftOperand?_of_not other.1 other.2.1 fun _ => other.2.2] at h
  contradiction

/-- A number can be put where the operation that is found begins. -/
theorem admits_before (found : findOperation? rank t = some (before, op, after))
    (path : Path .free before spot) (rest : Path spot (op.left ++ u) spot') : spot.Admits := by
  obtain ⟨_, _, here, _⟩ := findOperation?_leftmost found
  obtain ⟨_, left, _⟩ := operationAt?_operands here
  have whole := (isOneRow_of_leftOperand? left).1
  cases first : op.left with
  | nil =>
    obtain ⟨_, row, _, same, _, _, some, _⟩ := (findOperation?_operands found).2.1
    rw [first] at same
    simp only [List.nil_eq, List.append_eq_nil_iff] at same
    exact absurd same.1.2 some
  | cons c l =>
    have head := left
    rw [whole, first, List.cons_append] at head
    have step := rest
    rw [first, List.cons_append] at step
    obtain ⟨_, step, _⟩ := path_cons.1 step
    cases spot with
    | free => exact .free
    | signed => exact .signed
    | opened =>
      exfalso
      by_cases marked : openMark ∈ op.left
      · obtain ⟨lead, v, same, sign⟩ := leftOperand?_marked_shape left marked
        rw [same, List.append_assoc, List.cons_append] at rest
        exact not_path_opened sign rest
      · exact not_mark_before_left found marked path.of_opened
    | row m name =>
      have ends := path.of_row
      rcases leftOperand?_head head with operand | rfl | sign
      · have outside := findOperation?_before found (by rw [first]; exact operand)
        rw [ends] at outside
        contradiction
      · cases step with
        | digit h _ _ => exact absurd h (by decide)
        | letter h => exact absurd h (by decide)
        | behind other => exact .row other
        | between h _ _ => exact absurd h not_isBetween_openMark
      · have outside := not_operand_before_sign (s := []) found (by rw [first]; exact sign) (.inl rfl)
          (List.append_nil before).symm
        rw [ends] at outside
        contradiction
    | closed =>
      exfalso
      obtain ⟨b, shape, ends⟩ := path.of_closed
      rcases leftOperand?_head head with operand | rfl | sign
      · exact not_step_of_isOperandChar operand step
      · cases step with
        | between h _ _ => exact not_isBetween_openMark h
      · have outside := not_operand_before_sign found (by rw [first]; exact sign) (.inr rfl) shape
        rw [ends] at outside
        contradiction

theorem Step.of_closeMark (step : Step spot closeMark spot') : spot' = .closed := by
  cases step with
  | start h | signed h | opened h | letter h | digit h _ _ => exact absurd h (by decide)
  | leave _ => rfl
  | between h _ _ => exact absurd h (by decide)

/-- What stands behind a right operand can stand behind a number. -/
theorem path_behind_right {right name : Text} (found : rightOperand? u = some (right, after))
    (path : Path spot right spot') (rest : Path spot' after spot'') (ends : spot''.Ends)
    (other : Function.ofName? name = none) :
    ∃ last, Path (.row false name) after last ∧ last.Ends := by
  obtain ⟨opening, row, closing, rfl, operand, last⟩ := rightOperand?_shape found
  cases rest with
  | nil => exact ⟨_, .nil _, .row other⟩
  | @cons _ middle _ c q step rest =>
    -- An opening mark or an operator follows, and behind it the place is the same.
    suffices same : Step (.row false name) c middle from ⟨_, .cons same rest, ends⟩
    rcases last with rfl | ⟨rfl, stop, open'⟩
    · rw [← List.append_assoc] at path
      obtain ⟨_, _, closes⟩ := path.last
      obtain rfl := closes.of_closeMark
      cases step with
      | between h _ next => exact .between h other next
    · rw [List.append_nil] at path
      have inside : endsInside false (opening ++ row) = true := by
        rw [endsInside_append, endsInside_of_solid operand.2 operand.1]
      obtain ⟨marked, before, rfl⟩ := path.row inside
      have bare : isOperandChar c = false := stop
      cases step with
      | letter h =>
        rw [isOperandChar_of_isAlpha h] at bare
        contradiction
      | digit h _ _ =>
        rw [isOperandChar_of_isArgumentChar h] at bare
        contradiction
      | behind _ => exact .behind other
      | leave _ => contradiction
      | between h _ next => exact .between h other next

/-- An operation gives way to its value, and signs are reduced. -/
theorem IsQuiet.splice (h : IsQuiet t) (found : findOperation? rank t = some (before, op, after))
    (number : y.isNaN = false) :
    IsQuiet (Reckoner.reduceSigns (before ++ Double.plain y ++ after)) := by
  obtain ⟨last, path, ends⟩ := h
  obtain ⟨_, _, here, _⟩ := findOperation?_leftmost found
  obtain ⟨_, _, right⟩ := operationAt?_operands here
  rw [(findOperation?_operands found).1] at path
  obtain ⟨spot, front, path⟩ := path_append.1 path
  have admits := admits_before found front path
  obtain ⟨_, _, path⟩ := path_append.1 path
  obtain ⟨_, _, path⟩ := path_cons.1 path
  obtain ⟨_, operand, back⟩ := path_append.1 path
  obtain ⟨name, value, other⟩ := admits.plain number
  obtain ⟨last', back', ends'⟩ := path_behind_right right operand back ends other
  refine ⟨last', Path.reduceSigns ?_, ends'⟩
  rw [List.append_assoc]
  exact path_append.2 ⟨spot, front, path_append.2 ⟨_, value, back'⟩⟩

theorem IsQuiet.solveRank {context : Context} (h : IsQuiet t)
    (solved : (Reckoner.solveRank context rank t).outcome = .ok u) : IsQuiet u := by
  fun_induction Reckoner.solveRank context rank t with
  | case1 =>
    cases solved
    exact h
  | case2 t before op after found ih =>
    rw [Traced.outcome_bind] at solved
    obtain ⟨y, result, rest⟩ := bind_eq_ok solved
    exact ih y (h.splice found (Operation.solve_number result)) rest

theorem IsQuiet.solveOperations {context : Context} (h : IsQuiet t)
    (solved : (Reckoner.solveOperations context t).outcome = .ok u) : IsQuiet u := by
  rw [solveOperations_outcome] at solved
  obtain ⟨_, powers, solved⟩ := bind_eq_ok solved
  obtain ⟨_, products, sums⟩ := bind_eq_ok solved
  exact ((h.solveRank powers).solveRank products).solveRank sums

/-- No name in the text, with this name in front, is that of a function with a number directly
behind it. -/
def CallFree : Text → Text → Prop
  | _, [] => True
  | name, c :: t =>
    if c.isAlpha then CallFree (name ++ [c]) t
    else (isArgumentChar c = true → Function.ofName? name = none) ∧ CallFree [] t

/-- What a segment without calls comes to, without its marks. -/
structure IsContent (t : Text) : Prop where
  ends : endsInside false t = true
  calls : CallFree [] t

theorem callFree_letter (letter : c.isAlpha = true) :
    CallFree x (c :: t) ↔ CallFree (x ++ [c]) t := by
  rw [CallFree, if_pos letter]

theorem callFree_other (other : c.isAlpha = false) : CallFree x (c :: t) ↔
    (isArgumentChar c = true → Function.ofName? x = none) ∧ CallFree [] t := by
  rw [CallFree, if_neg (by rw [other]; decide)]

theorem callFree_between (between : isBetween c = true) : CallFree x (c :: t) ↔ CallFree [] t := by
  have bare := (isBetween_iff.1 between).1
  have other : c.isAlpha = false := by
    cases letter : c.isAlpha with
    | false => rfl
    | true =>
      rw [isOperandChar_of_isAlpha letter] at bare
      contradiction
  rw [callFree_other other, and_iff_right]
  intro digit
  rw [isOperandChar_of_isArgumentChar digit] at bare
  contradiction

def Spot.Joins : Spot → Text → Prop
  | free, joined | signed, joined => joined = []
  | opened, joined => Function.ofName? joined = none
  | row false name, joined => joined = name
  | row true name, joined => name = [] → Function.ofName? joined = none
  | closed, _ => True

theorem firstName_of_letter (letter : c.isAlpha = true) : firstName c = [c] := if_pos letter

theorem firstName_of_other (other : c.isAlpha = false) : firstName c = [] :=
  if_neg (by rw [other]; decide)

theorem Step.joins_letter {joined : Text} (step : Step spot c spot') (h : spot.Joins joined)
    (letter : c.isAlpha = true) : spot'.Joins (joined ++ [c]) := by
  have operand := isOperandChar_of_isAlpha letter
  cases step with
  | start _ | signed _ =>
    obtain rfl : joined = [] := h
    exact (firstName_of_letter letter).symm
  | opened _ =>
    intro none
    rw [firstName_of_letter letter] at none
    contradiction
  | @letter marked name _ _ =>
    cases marked with
    | false => exact congrArg (fun name => name ++ [c]) h
    | true => exact fun none => absurd none (by simp)
  | digit h _ _ =>
    rw [not_isAlpha_of_isArgumentChar h] at letter
    contradiction
  | enter | behind _ | leave _ => exact absurd letter (by decide)
  | between h _ _ =>
    rw [not_isBetween_of_isOperandChar operand] at h
    contradiction

theorem Step.joins_other {joined : Text} (step : Step spot c spot') (h : spot.Joins joined)
    (other : c.isAlpha = false) (unmarked : c ≠ openMark ∧ c ≠ closeMark) :
    (isArgumentChar c = true → Function.ofName? joined = none) ∧ spot'.Joins [] := by
  cases step with
  | start _ | signed _ =>
    obtain rfl : joined = [] := h
    exact ⟨fun _ => ofName?_nil, (firstName_of_other other).symm⟩
  | opened _ => exact ⟨fun _ => h, fun _ => ofName?_nil⟩
  | letter letter =>
    rw [other] at letter
    contradiction
  | @digit marked name _ _ notFunction apart =>
    cases marked with
    | false =>
      obtain rfl : joined = name := h
      exact ⟨fun _ => notFunction, rfl⟩
    | true => exact ⟨fun _ => h (apart rfl), fun _ => ofName?_nil⟩
  | enter | behind _ => exact absurd rfl unmarked.1
  | leave _ => exact absurd rfl unmarked.2
  | between h _ next =>
    refine ⟨fun digit => ?_, ?_⟩
    · rw [not_isBetween_of_isOperandChar (isOperandChar_of_isArgumentChar digit)] at h
      contradiction
    · rcases spot.operated_cases with same | same
      all_goals
        rw [next, same]
        rfl

/-- A mark does not part the name before it from the name behind it. -/
theorem Step.joins_mark {joined : Text} (step : Step spot c spot') (h : spot.Joins joined)
    (mark : c = openMark ∨ c = closeMark) : spot'.Joins joined := by
  have bare : isOperandChar c ≠ true ∧ isBetween c ≠ true := by rcases mark with rfl | rfl <;> decide
  cases step with
  | start operand | signed operand | opened operand => exact absurd operand bare.1
  | letter letter => exact absurd (isOperandChar_of_isAlpha letter) bare.1
  | digit digit _ _ => exact absurd (isOperandChar_of_isArgumentChar digit) bare.1
  | enter =>
    obtain rfl : joined = [] := h
    exact ofName?_nil
  | @behind name other =>
    obtain rfl : joined = name := h
    exact other
  | leave _ => trivial
  | between between _ _ => exact absurd between bare.2

theorem stripMarks_mark (mark : c = openMark ∨ c = closeMark) (t : Text) :
    stripMarks (c :: t) = stripMarks t := by
  rcases mark with rfl | rfl <;> rfl

theorem stripMarks_other (other : c ≠ openMark ∧ c ≠ closeMark) (t : Text) :
    stripMarks (c :: t) = c :: stripMarks t := by
  unfold stripMarks
  rw [List.filter_cons_of_pos]
  simp [other]

/-- Marks are dropped, and no call comes up. -/
theorem Path.callFree {joined : Text} (path : Path spot t spot') (h : spot.Joins joined) :
    CallFree joined (stripMarks t) := by
  induction path generalizing joined with
  | nil => trivial
  | @cons _ _ _ c t step _ ih =>
    by_cases mark : c = openMark ∨ c = closeMark
    · rw [stripMarks_mark mark]
      exact ih (step.joins_mark h mark)
    · have unmarked := not_or.1 mark
      rw [stripMarks_other unmarked]
      by_cases letter : c.isAlpha = true
      · rw [callFree_letter letter]
        exact ih (step.joins_letter h letter)
      · have other : c.isAlpha = false := by simpa using letter
        rw [callFree_other other]
        exact (step.joins_other h other unmarked).imp_right fun joins => ih joins

theorem callFree_reduceSigns (h : CallFree x t) : CallFree x (reduceSigns t) := by
  induction t generalizing x with
  | nil => exact h
  | cons c t ih =>
    rw [reduceSigns_cons]
    by_cases letter : c.isAlpha = true
    · have unsigned := isSign_of_isOperandChar (isOperandChar_of_isAlpha letter)
      rw [attachSign_of_not_isSign unsigned, callFree_letter letter]
      exact ih ((callFree_letter letter).1 h)
    · obtain ⟨apart, rest⟩ := (callFree_other (by simpa using letter)).1 h
      have reduced := ih rest
      cases shape : Reckoner.reduceSigns t with
      | nil => exact (callFree_other (by simpa using letter)).2 ⟨apart, trivial⟩
      | cons d r =>
        rw [shape] at reduced
        by_cases signs : isSign c = true ∧ isSign d = true
        · rw [attachSign_of_signs signs.1 signs.2,
            callFree_between (isBetween_of_isSign (isSign_combineSigns c d))]
          exact (callFree_between (isBetween_of_isSign signs.2)).1 reduced
        · rw [attachSign_of_apart signs, callFree_other (by simpa using letter)]
          exact ⟨apart, reduced⟩

theorem endsInside_bareOperand (ends : endsInside false t = true) :
    endsInside false (bareOperand t) = true := by
  rcases List.eq_nil_or_concat t with rfl | ⟨u, c, rfl⟩
  · contradiction
  · rw [List.concat_eq_append] at ends ⊢
    rw [endsInside_append] at ends
    have operand : isOperandChar c = true := ends
    have alone : stripMarks [c] = [c] := stripMarks_row (List.forall_mem_singleton.2 operand)
    unfold bareOperand
    rw [stripMarks_append, alone, reduceSigns_append_cons (isSign_of_isOperandChar operand),
      endsInside_append]
    exact operand

/-- What a segment without calls comes to. -/
theorem IsQuiet.content (h : IsQuiet t) : IsContent (bareOperand t) := by
  obtain ⟨spot, path, ends⟩ := h
  refine ⟨?_, callFree_reduceSigns (path.callFree rfl)⟩
  cases ends with
  | row _ => exact endsInside_bareOperand path.of_row
  | closed =>
    obtain ⟨b, rfl, inside⟩ := path.of_closed
    have same : bareOperand (b ++ [closeMark]) = bareOperand b := by
      unfold bareOperand
      rw [stripMarks_append, stripMarks_mark (.inr rfl)]
      simp [stripMarks]
    rw [same]
    exact endsInside_bareOperand inside

end Reckoner
