import Reckoner.Proofs.Evaluation.Alternating
import Reckoner.Proofs.Evaluation.CallOperand
import Reckoner.Proofs.Evaluation.Flat

set_option autoImplicit false

/- Segments with calls. An operand that is a name, a numeral or the value of a group, perhaps as the
argument of a function, either fails, or stays as it is, or gives way to a number; so what the calls
of a segment leave is operands and operators in turn, and its value is one operand. -/
namespace Reckoner

open Double

/-- A name, or a numeral. -/
inductive IsWord : Text → Prop
  | name {r : Text} (nonempty : r ≠ []) (letters : Letters r) : IsWord r
  | numeral {r : Text} {x : Float} (row : IsRow r) (letterless : Letterless r)
    (value : Numeral.literal? r = some x) : IsWord r

/-- A word, or a marked word that may have a sign. -/
inductive IsPlainOperand : Text → Prop
  | word {r : Text} (h : IsWord r) : IsPlainOperand r
  | marked {lead r : Text} (sign : IsLead lead) (h : IsWord r) :
    IsPlainOperand (markValue (lead ++ r))

/-- An operand, or the call of a function whose name no variable has. A name in front of a numeral
can be any. -/
inductive IsCallable (context : Context) : Text → Prop
  | direct {o : Text} (h : IsPlainOperand o) : IsCallable context o
  | applied {x : Text} (l : Literal) (nonempty : x ≠ []) (letters : Letters x) :
    IsCallable context (x ++ l.text)
  | called {lead r : Text} (f : Function) (free : context.bindings.has f.name = false)
    (sign : IsLead lead) (h : IsWord r) : IsCallable context (f.name ++ markValue (lead ++ r))

/-- Whatever stands around the operand, solving the calls in it fails. -/
def CallsFail (context : Context) (o : Text) : Prop :=
  ∃ f : Fault, ∀ done t, Ends t → (solveCalls context done (o ++ t)).outcome = .error (.fault f)

variable {context : Context} {name argument r o t u lead : Text} {x : Float} {ls : List Link}

theorem IsWord.row (h : IsWord r) : IsRow r := by
  cases h with
  | name nonempty letters =>
    exact ⟨nonempty, fun c member => isOperandChar_of_isAlpha (letters c member)⟩
  | numeral row _ _ => exact row

theorem Literal.isWord (l : Literal) : IsWord l.text :=
  .numeral l.isRow (fun _ member => not_isAlpha_of_isArgumentChar (mem_text member)) l.literal?_text

theorem IsWritten.isWord (h : IsWritten r) : IsWord r := by
  obtain ⟨x, number, rfl⟩ := h
  have tame := isTame_sizeText (magnitude x)
  rcases tame.silent with letterless | ⟨letters, _⟩
  · exact .numeral tame.row letterless (Numeral.literal?_sizeText (isNaN_eq_false_iff.1 number)
      (Numeral.splitSign_of_no_sign (Numeral.sizeText_startsWith _)))
  · exact .name tame.row.1 letters

theorem markValue_lead (sign : IsLead lead) (h : IsRow r) :
    markValue (lead ++ r) = openMark :: (lead ++ (r ++ [closeMark])) := by
  unfold markValue
  rw [bareOperand_lead_row sign h, List.cons_append, List.append_assoc]

theorem markValue_append (sign : IsLead lead) (h : IsRow r) (t : Text) :
    markValue (lead ++ r) ++ t = openMark :: (lead ++ (r ++ closeMark :: t)) := by
  rw [markValue_lead sign h]
  simp

theorem IsPlainOperand.operand (h : IsPlainOperand o) : IsOperand o := by
  cases h with
  | word h => exact .row h.row
  | marked sign h =>
    rw [markValue_lead sign h.row]
    exact .marked sign h.row

theorem IsPlainOperand.isWord (h : IsPlainOperand o) : IsWord (operandRow o) := by
  cases h with
  | word h => rwa [operandRow_row h.row]
  | @marked lead r sign h =>
    rw [operandRow_markValue, operandRow_signs sign.signs, operandRow_row h.row,
      ← List.nil_append r, reduceSigns_append_row _ h.row, reduceSigns_nil, List.nil_append]
    exact h

theorem operandRow_marked (signs : ∀ c ∈ t, isSign c = true) (h : IsPlainOperand o) :
    operandRow (markValue (t ++ o)) = operandRow o := by
  rw [operandRow_markValue, operandRow_signs signs, ← List.nil_append (operandRow o),
    reduceSigns_append_row _ h.isWord.row, reduceSigns_nil]

/-- The value of a segment that comes to an operand with signs is a marked word. -/
theorem IsPlainOperand.marks (h : IsPlainOperand o) (signs : ∀ c ∈ t, isSign c = true) :
    ∃ lead, markValue (t ++ o) = markValue (lead ++ operandRow o) ∧ IsLead lead := by
  have row := h.isWord.row
  have both : ∀ c ∈ t ++ (stripMarks o).takeWhile isSign, isSign c = true :=
    List.forall_mem_append.2 ⟨signs, fun c => List.all_eq_true.1 List.all_takeWhile c⟩
  have lead := isLead_reduceSigns both
  refine ⟨_, ?_, lead⟩
  unfold markValue
  rw [bareOperand_signs signs row, bareOperand_lead_row lead row]

theorem isPlainOperand_marked (signs : ∀ c ∈ t, isSign c = true) (h : IsPlainOperand o) :
    IsPlainOperand (markValue (t ++ o)) := by
  obtain ⟨lead, same, sign⟩ := h.marks signs
  rw [same]
  exact .marked sign h.isWord

/-- The search for calls passes over a word, unless it is the name of a function. -/
theorem IsWord.calls (h : IsWord r) :
    (∃ f : Fault, ∀ done t, startsWith Char.isAlpha t = false → argument? t = none →
      (solveCalls context done (r ++ t)).outcome = .error (.fault f)) ∨
    ∀ done t, startsWith Char.isAlpha t = false → argument? t = none →
      (solveCalls context done (r ++ t)).outcome = (solveCalls context (done ++ r) t).outcome := by
  cases h with
  | numeral _ letterless _ => exact .inr fun done t _ _ => solveCalls_append letterless done t
  | name nonempty letters =>
    have named (done t : Text) (stop : startsWith Char.isAlpha t = false)
        (missed : argument? t = none) : solveCalls context done ([] ++ (r ++ t)) = _ :=
      solveCalls_of_name nofun nonempty letters stop missed
    by_cases missing : ((Function.ofName? r).isSome && !context.bindings.has r) = true
    · refine .inl ⟨.missingArgument r, fun done t stop missed => ?_⟩
      have call := named done t stop missed
      rw [if_pos missing, List.nil_append] at call
      rw [call]
      rfl
    · refine .inr fun done t stop missed => ?_
      have call := named done t stop missed
      rw [if_neg missing, List.nil_append, List.append_nil] at call
      rw [call]

theorem IsPlainOperand.calls (h : IsPlainOperand o) :
    CallsFail context o ∨ CallsLeave context o o := by
  cases h with
  | word h =>
    rcases h.calls with ⟨f, fails⟩ | leaves
    · exact .inl ⟨f, fun done t ends => fails done t ends.startsWith_isAlpha ends.argument?⟩
    · exact .inr fun done t ends => leaves done t ends.startsWith_isAlpha ends.argument?
  | @marked lead r sign h =>
    have opening : Letterless (openMark :: lead) :=
      List.forall_mem_cons.2 ⟨by decide, sign.not_isAlpha⟩
    have closing : Letterless [closeMark] := by
      unfold Letterless
      decide
    have shape (t : Text) : markValue (lead ++ r) ++ t =
        openMark :: lead ++ (r ++ ([closeMark] ++ t)) := markValue_append sign h.row t
    have stop (t : Text) : startsWith Char.isAlpha ([closeMark] ++ t) = false := by
      change closeMark.isAlpha = false
      decide
    have missed (t : Text) : argument? ([closeMark] ++ t) = none :=
      argument?_of_not (by decide) (by decide) t
    rcases h.calls with ⟨f, fails⟩ | leaves
    · refine .inl ⟨f, fun done t _ => ?_⟩
      rw [shape, solveCalls_append opening]
      exact fails _ _ (stop t) (missed t)
    · refine .inr fun done t _ => ?_
      rw [shape, solveCalls_append opening, leaves _ _ (stop t) (missed t),
        solveCalls_append closing, markValue_lead sign h.row]
      simp

/-- A call with a numeral as its argument has a value, or a fault is to blame. -/
theorem solveCall_of_literal {y : Float}
    (literal : Numeral.literal? (stripMarks argument) = some y) :
    (∃ f, solveCall context name argument = .error (.fault f)) ∨
      ∃ x, solveCall context name argument = .ok x := by
  unfold solveCall
  rw [literal]
  cases Function.ofName? name with
  | none => exact .inl ⟨_, rfl⟩
  | some f =>
    cases result : f.apply context.angles y with
    | error fault => exact .inl ⟨fault, by simp only [result]⟩
    | ok x =>
      simp only [result]
      split
      · exact .inl ⟨_, rfl⟩
      · exact .inr ⟨x, rfl⟩

theorem calls_of_argument {y : Float} (nonempty : name ≠ []) (letters : Letters name)
    (stop : ∀ t, Ends t → startsWith Char.isAlpha (o ++ t) = false)
    (found : ∀ t, Ends t → argument? (o ++ t) = some (argument, t))
    (literal : Numeral.literal? (stripMarks argument) = some y) :
    CallsFail context (name ++ o) ∨
      ∃ x, x.isNaN = false ∧ CallsLeave context (name ++ o) (plain x) := by
  have call : (∃ f, solveCall context name argument = .error (.fault f)) ∨ _ :=
    solveCall_of_literal literal
  rcases call with ⟨f, failed⟩ | ⟨x, solved⟩
  · refine .inl ⟨f, fun done t ends => ?_⟩
    have call : (solveCalls context done ([] ++ (name ++ (o ++ t)))).outcome = _ :=
      solveCalls_of_call nofun nonempty letters (stop t ends) (found t ends)
    rw [List.nil_append, failed] at call
    rw [List.append_assoc, call]
    rfl
  · exact .inr ⟨x, solveCall_number solved, callsLeave_of_argument nonempty letters stop found solved⟩

/-- What is read as an argument behind a mark is all of the row, up to the closing mark. -/
theorem isArgumentSize_of_argument?_mark {tail : Text} (sign : IsLead lead) (h : IsRow r)
    (stop : startsWith isOperandChar u = false)
    (found : argument? (openMark :: (lead ++ (r ++ u))) = some (argument, tail)) :
    IsArgumentSize r ∧ u = closeMark :: tail := by
  rw [argument?_mark, splitOne_lead sign (h.unsigned _)] at found
  obtain ⟨size, read, _⟩ := closeArgument?_eq_some found
  have argumentSize := isArgumentSize_of_argumentSize? read
  have shape : r ++ u = size ++ closeMark :: tail := argumentSize?_eq_append read
  have stop' : startsWith isOperandChar (closeMark :: tail) = false := by
    change isOperandChar closeMark = false
    decide
  have front := congrArg (List.takeWhile isOperandChar) shape
  have behind := congrArg (List.dropWhile isOperandChar) shape
  rw [takeWhile_row h.2 stop, takeWhile_row argumentSize.row.2 stop'] at front
  rw [dropWhile_row h.2 stop, dropWhile_row argumentSize.row.2 stop'] at behind
  exact ⟨front ▸ argumentSize, behind⟩

theorem argument?_marked (sign : IsLead lead) (h : IsRow r) (t : Text) :
    argument? (markValue (lead ++ r) ++ t) =
      closeArgument? (openMark :: lead) (argumentSize? (r ++ closeMark :: t)) := by
  rw [markValue_append sign h, argument?_mark, splitOne_lead sign (h.unsigned _)]

/-- A marked row is an argument if it is one without the marks. -/
theorem argument?_marked_of_not (sign : IsLead lead) (h : IsRow r) (other : ¬ IsArgumentSize r)
    (t : Text) : argument? (markValue (lead ++ r) ++ t) = none := by
  rw [markValue_append sign h]
  have stop : startsWith isOperandChar (closeMark :: t) = false := by
    change isOperandChar closeMark = false
    decide
  cases found : argument? (openMark :: (lead ++ (r ++ closeMark :: t))) with
  | none => rfl
  | some call => exact absurd (isArgumentSize_of_argument?_mark sign h stop found).1 other

theorem argument?_marked_of_size (sign : IsLead lead) (h : IsRow r) (size : IsArgumentSize r)
    (t : Text) : argument? (markValue (lead ++ r) ++ t) = some (markValue (lead ++ r), t) := by
  have stop : startsWith isArgumentChar (closeMark :: t) = false := by
    change isArgumentChar closeMark = false
    decide
  rw [argument?_marked sign h, argumentSize?_append size stop, markValue_lead sign h]
  change some (openMark :: lead ++ r ++ [closeMark], t) = _
  simp

/-- The name of a variable cannot be an argument. -/
theorem Name.not_isArgumentSize (x : Name) : ¬ IsArgumentSize x.text := by
  rintro (same | ⟨nonempty, row⟩)
  · exact x.notInfinity same
  · obtain ⟨c, s, shape⟩ := List.exists_cons_of_ne_nil nonempty
    have member : c ∈ x.text := by rw [shape]; exact .head _
    have letter := x.letters c member
    rw [not_isAlpha_of_isArgumentChar (row c member)] at letter
    contradiction

/-- The call of a function fails on a marked row that is no argument. -/
theorem solveCalls_missing (f : Function) (free : context.bindings.has f.name = false)
    (sign : IsLead lead) (h : IsRow r) (other : ¬ IsArgumentSize r) (done t : Text) :
    (solveCalls context done (f.name ++ (markValue (lead ++ r) ++ t))).outcome =
      .error (.fault (.missingArgument f.name)) := by
  have call : solveCalls context done ([] ++ (f.name ++ (markValue (lead ++ r) ++ t))) = _ :=
    solveCalls_of_name nofun (name_ne_nil f) (letters_name f) rfl
      (argument?_marked_of_not sign h other t)
  rw [List.nil_append, Function.ofName?_name, free] at call
  rw [call]
  rfl

/-- A word that can be an argument is a numeral, behind any sign. -/
theorem IsWord.literal?_of_size (h : IsWord r) (sign : IsLead lead) (size : IsArgumentSize r) :
    ∃ y, Numeral.literal? (lead ++ r) = some y := by
  rw [literal?_lead sign h.row]
  cases h with
  | numeral _ _ value => exact ⟨_, by rw [value]; rfl⟩
  | name nonempty letters =>
    rcases size with rfl | ⟨_, row⟩
    · have infinite : Numeral.literal? infinityName = some _ :=
        Numeral.literal?_infinityName false (by decide)
      exact ⟨_, by rw [infinite]; rfl⟩
    · obtain ⟨c, s, rfl⟩ := List.exists_cons_of_ne_nil nonempty
      have letter := letters c (.head _)
      rw [not_isAlpha_of_isArgumentChar (row c (.head _))] at letter
      contradiction

theorem Literal.argument? (l : Literal) (ends : Ends t) :
    Reckoner.argument? (l.text ++ t) = some (l.text, t) := by
  obtain ⟨c, s, shape, first⟩ := l.exists_cons
  have row : ∀ c ∈ l.text, isArgumentChar c = true := fun c => l.mem_text
  have starts : startsWith isArgumentChar (c :: (s ++ t)) = true := first
  have unmarked : c ≠ openMark := by
    rintro rfl
    contradiction
  have stop : startsWith isArgumentChar t = false := by
    rcases ends with rfl | ⟨operator, v, rfl⟩
    · rfl
    · cases operator <;> rfl
  have read := argumentSize?_append (.inr ⟨l.isRow.1, row⟩) stop
  unfold argumentSize? at read
  rw [shape, List.cons_append, if_pos starts] at read
  rw [shape, List.cons_append, argument?_of_unmarked unmarked, if_pos starts]
  exact read

/-- Solving the calls in an operand fails, leaves it as it is, or leaves a number. -/
theorem IsCallable.calls (h : IsCallable context o) :
    CallsFail context o ∨ (IsPlainOperand o ∧ CallsLeave context o o) ∨
      ∃ x, x.isNaN = false ∧ CallsLeave context o (plain x) := by
  cases h with
  | direct h => exact h.calls.imp_right fun leaves => .inl ⟨h, leaves⟩
  | @applied x l nonempty letters =>
    have literal : Numeral.literal? (stripMarks l.text) = some l.value := by
      rw [stripMarks_row l.isRow.2, l.literal?_text]
    exact (calls_of_argument nonempty letters (fun t _ => l.not_startsWith_isAlpha t)
      (fun t ends => l.argument? ends) literal).imp_right .inr
  | @called lead r f free sign h =>
    by_cases size : IsArgumentSize r
    · obtain ⟨y, literal⟩ := h.literal?_of_size sign size
      rw [← bareOperand_lead_row sign h.row, ← stripMarks_markValue] at literal
      exact (calls_of_argument (name_ne_nil f) (letters_name f) (fun t _ => rfl)
        (fun t _ => argument?_marked_of_size sign h.row size t) literal).imp_right .inr
    · refine .inl ⟨.missingArgument f.name, fun done t _ => ?_⟩
      rw [List.append_assoc]
      exact solveCalls_missing f free sign h.row size done t

/-- A link behind another one. -/
structure IsJointOf (kind : Text → Prop) (l : Link) : Prop where
  lead : IsLead l.lead
  joint : l.glue = none → l.lead ≠ []
  operand : kind l.operand

theorem IsChainOf.joined {kind : Text → Prop} {l : Link} (h : IsChainOf kind (l :: ls)) :
    ∀ m ∈ ls, IsJointOf kind m := fun m member =>
  ⟨h.lead m (.tail _ member), h.joint m member, h.operand m (.tail _ member)⟩

/-- The first character of a link behind another one is an operator. -/
theorem IsJointOf.operator {kind : Text → Prop} {l : Link} (h : IsJointOf kind l) :
    ∃ (operator : Operator) (lead : Text), IsLead lead ∧
      l.symbol ++ l.lead = operator.symbol :: lead := by
  cases glue : l.glue with
  | some operator =>
    rw [Link.symbol_of_some glue]
    exact ⟨operator, l.lead, h.lead, rfl⟩
  | none =>
    rw [Link.symbol_of_none glue]
    rcases isLead_cases_joined h.lead (h.joint glue) with plus | minus
    · exact ⟨.add, [], isLead_nil, plus⟩
    · exact ⟨.subtract, [], isLead_nil, minus⟩

theorem ends_of_joint {kind : Text → Prop} (h : ∀ l ∈ ls, IsJointOf kind l) :
    Ends (linksText ls) := by
  cases ls with
  | nil => exact .inl rfl
  | cons l ls =>
    obtain ⟨operator, lead, _, shape⟩ := (h l (.head _)).operator
    refine .inr ⟨operator, lead ++ (l.operand ++ linksText ls), ?_⟩
    rw [linksText_cons, Link.body, List.append_assoc, ← List.append_assoc, shape, List.cons_append]

/-- Solving the calls of an operand with a sign in front fails, or it leaves the operand or a number,
whatever stands around it. -/
theorem IsCallable.solveCalls (h : IsCallable context o) (sign : IsLead lead) :
    (∃ f : Fault, ∀ done t, Ends t →
      (Reckoner.solveCalls context done (lead ++ (o ++ t))).outcome = .error (.fault f)) ∨
      ∃ s p, Front s p ∧ IsPlainOperand p ∧ (IsWritten p ∨ p = o) ∧ ∀ done t, Ends t →
        (Reckoner.solveCalls context done (lead ++ (o ++ t))).outcome =
          (Reckoner.solveCalls context (done ++ (s ++ p)) t).outcome := by
  have passed (done t : Text) : (Reckoner.solveCalls context done (lead ++ (o ++ t))).outcome = _ :=
    solveCalls_append sign.not_isAlpha done (o ++ t)
  rcases h.calls with ⟨f, fails⟩ | ⟨stays, leaves⟩ | ⟨x, number, leaves⟩
  · exact .inl ⟨f, fun done t ends => by rw [passed, fails _ _ ends]⟩
  · refine .inr ⟨lead, o, .one sign stays.operand, stays, .inr rfl, fun done t ends => ?_⟩
    rw [passed, leaves _ _ ends, List.append_assoc]
  · have written : IsWritten (sizeText (magnitude x)) := ⟨x, number, rfl⟩
    refine .inr ⟨lead ++ valueSign x, _, .two sign (isLead_valueSign x) written.isWord.row,
      .word written.isWord, .inl written, fun done t ends => ?_⟩
    rw [passed, leaves _ _ ends, plain_eq number, List.append_assoc, List.append_assoc]

/-- Solving the calls of a chain fails, or leaves operands and operators in turn: the operands of
the chain, or numbers. What stands around the chain has no part in it. -/
theorem solveCalls_chain (operand : IsCallable context o) (sign : IsLead lead)
    (joined : ∀ l ∈ ls, IsJointOf (IsCallable context) l) :
    (∃ f : Fault, ∀ done t, Ends t →
      (solveCalls context done (lead ++ (o ++ (linksText ls ++ t)))).outcome = .error (.fault f)) ∨
      ∃ ranks os u, Alternates ranks os u ∧
        (∀ p ∈ os, IsPlainOperand p ∧ (IsWritten p ∨ p ∈ o :: ls.map Link.operand)) ∧
        (ranks = [] → ls = []) ∧ ∀ done t, Ends t →
          (solveCalls context done (lead ++ (o ++ (linksText ls ++ t)))).outcome =
            (solveCalls context (done ++ u) t).outcome := by
  induction ls generalizing lead o with
  | nil =>
    rcases operand.solveCalls sign with ⟨f, fails⟩ | ⟨s, p, front, plain, kept, leaves⟩
    · exact .inl ⟨f, fails⟩
    · refine .inr ⟨[], [p], s ++ p, .last front, ?_, fun _ => rfl, leaves⟩
      exact List.forall_mem_singleton.2 ⟨plain, kept.imp_right List.mem_singleton.2⟩
  | cons l ls ih =>
    obtain ⟨next, rest⟩ := List.forall_mem_cons.1 joined
    obtain ⟨operator, lead', sign', shape⟩ := next.operator
    have text (t : Text) : linksText (l :: ls) ++ t =
        operator.symbol :: (lead' ++ (l.operand ++ (linksText ls ++ t))) := by
      have whole : linksText (l :: ls) ++ t =
          (l.symbol ++ l.lead) ++ (l.operand ++ (linksText ls ++ t)) := by
        simp [linksText, Link.body]
      rw [whole, shape, List.cons_append]
    have symbol := letterless_symbol operator
    have ends (t : Text) : Ends (linksText (l :: ls) ++ t) := .inr ⟨operator, _, text t⟩
    rcases operand.solveCalls sign with ⟨f, fails⟩ | ⟨s, p, front, plain, kept, leaves⟩
    · exact .inl ⟨f, fun done t _ => fails done _ (ends t)⟩
    have passed (done t : Text) :
        (solveCalls context done (lead ++ (o ++ (linksText (l :: ls) ++ t)))).outcome =
          (solveCalls context (done ++ (s ++ p) ++ [operator.symbol])
            (lead' ++ (l.operand ++ (linksText ls ++ t)))).outcome := by
      rw [leaves _ _ (ends t), text, ← List.singleton_append, solveCalls_append symbol]
    rcases ih next.operand sign' rest with ⟨f, fails⟩ | ⟨ranks, os, u, alternates, plains, _, after⟩
    · exact .inl ⟨f, fun done t ends => by rw [passed, fails _ _ ends]⟩
    · refine .inr ⟨operator.rank :: ranks, p :: os, s ++ (p ++ operator.symbol :: u),
        .join front operator alternates, List.forall_mem_cons.2 ⟨⟨plain, ?_⟩, fun p' member => ?_⟩,
        fun none => absurd none (List.cons_ne_nil _ _), fun done t ends => ?_⟩
      · exact kept.imp_right fun same => List.mem_cons.2 (.inl same)
      · exact (plains p' member).imp_right fun kept => kept.imp_right (.tail _)
      · rw [passed, after _ _ ends]
        simp

/-- The calls of a segment leave operands and operators in turn, unless one of them fails. -/
theorem IsChainOf.solveCalls (h : IsChainOf (IsCallable context) ls) :
    (∃ f, (Reckoner.solveCalls context [] (linksText ls)).outcome = .error (.fault f)) ∨
      ∃ ranks os u, (Reckoner.solveCalls context [] (linksText ls)).outcome = .ok u ∧
        Alternates ranks os u ∧
        (∀ p ∈ os, IsPlainOperand p ∧ (IsWritten p ∨ ∃ l ∈ ls, p = l.operand)) ∧
        (ranks = [] → ∃ l, ls = [l]) := by
  obtain ⟨l, rest, rfl, start⟩ := h.exists_cons
  have text : linksText (l :: rest) = l.lead ++ (l.operand ++ linksText rest) := by
    rw [linksText_cons, Link.symbol_of_none start, Link.body, List.append_assoc, List.nil_append]
  rw [text, ← List.append_nil (linksText rest)]
  rcases solveCalls_chain (h.operand l (.head _)) (h.lead l (.head _)) h.joined with
    ⟨f, fails⟩ | ⟨ranks, os, u, alternates, plains, single, leaves⟩
  · exact .inl ⟨f, fails [] [] (.inl rfl)⟩
  have calls : (Reckoner.solveCalls context []
      (l.lead ++ (l.operand ++ (linksText rest ++ [])))).outcome = .ok u := by
    rw [leaves [] [] (.inl rfl), solveCalls_of_letterless letterless_nil, List.append_nil]
    rfl
  refine .inr ⟨ranks, os, u, calls, alternates, fun p member => ?_, fun none => ?_⟩
  · refine (plains p member).imp_right fun kept => kept.imp_right fun inside => ?_
    rw [← List.map_cons] at inside
    obtain ⟨m, among, rfl⟩ := List.mem_map.1 inside
    exact ⟨m, among, rfl⟩
  · rw [single none]
    exact ⟨l, rfl⟩

/-- What the operations of a segment leave: one operand with signs. It is a number, except where the
segment is a single operand without a call. -/
theorem IsChainOf.solveOperations {v : Text} (h : IsChainOf (IsCallable context) ls)
    (calls : (Reckoner.solveCalls context [] (linksText ls)).outcome = .ok u)
    (solved : (Reckoner.solveOperations context u).outcome = .ok v) :
    ∃ s p, v = s ++ p ∧ Front s p ∧ IsPlainOperand p ∧
      (IsWritten p ∨ ∃ l, ls = [l] ∧ p = l.operand) := by
  rcases h.solveCalls with ⟨f, failed⟩ | ⟨ranks, os, u', calls', alternates, plains, single⟩
  · rw [calls] at failed
    contradiction
  rw [calls] at calls'
  cases calls'
  obtain ⟨s, p, rfl, front, left⟩ := alternates.solveOperations solved
  refine ⟨s, p, rfl, front, ?_⟩
  rcases left with ⟨none, rfl, _⟩ | result
  · obtain ⟨l, rfl⟩ := single none
    refine (plains p (.head _)).imp_right fun kept => kept.imp_right fun ⟨m, member, same⟩ => ?_
    exact ⟨l, rfl, List.mem_singleton.1 member ▸ same⟩
  · exact ⟨.word result.isWord, .inl result⟩

/-- What a segment comes to: a marked word. It is a number, except where the segment is a single
operand without a call. -/
theorem solveSegment_chain (h : IsChainOf (IsCallable context) ls) :
    (∃ f, (solveSegment context (linksText ls)).outcome = .error (.fault f)) ∨
      ∃ lead r, (solveSegment context (linksText ls)).outcome = .ok (markValue (lead ++ r)) ∧
        IsLead lead ∧ IsWord r ∧
        (IsWritten r ∨ ∃ l, ls = [l] ∧ IsPlainOperand l.operand ∧ r = operandRow l.operand) := by
  rw [solveSegment_outcome]
  rcases h.solveCalls with ⟨f, failed⟩ | ⟨_, _, u, calls, _⟩
  · exact .inl ⟨f, by rw [failed]; rfl⟩
  rw [calls]
  simp only [Except.bind]
  cases solved : (solveOperations context u).outcome with
  | error f => exact .inl ⟨f, rfl⟩
  | ok v =>
    obtain ⟨s, p, rfl, front, plain, kept⟩ := h.solveOperations calls solved
    obtain ⟨lead, marked, sign⟩ := plain.marks front.signs
    refine .inr ⟨lead, operandRow p, congrArg _ marked, sign, plain.isWord, ?_⟩
    rcases kept with written | ⟨l, single, rfl⟩
    · refine .inl ?_
      rwa [operandRow_row written.isWord.row]
    · exact .inr ⟨l, single, plain, rfl⟩

/-- Every name directly in front of a parenthesis is that of a function, and no variable has it. -/
def CallsFunctions (context : Context) (t : Text) : Prop :=
  ∀ u x v, t = u ++ (x ++ '(' :: v) → x ≠ [] → Letters x →
    (∀ c ∈ u.getLast?, c.isAlpha = false) →
      ∃ f : Function, x = f.name ∧ context.bindings.has f.name = false

/-- No name, or that of a function that no variable has. -/
def IsCallName (context : Context) (x : Text) : Prop :=
  x = [] ∨ ∃ f : Function, x = f.name ∧ context.bindings.has f.name = false

variable {x : Text}

theorem IsCallName.flat (h : IsCallName context x) : '(' ∉ x ∧ ')' ∉ x := by
  rcases h with rfl | ⟨f, rfl, _⟩
  · decide
  · exact name_flat f

theorem IsAtom.flat (h : IsAtom o) : '(' ∉ o ∧ ')' ∉ o := by
  cases h with
  | literal l => exact l.flat
  | name nonempty letters => exact flat_of_letters letters
  | applied l nonempty letters =>
    refine ⟨fun member => ?_, fun member => ?_⟩
    · exact (List.mem_append.1 member).elim (flat_of_letters letters).1 l.flat.1
    · exact (List.mem_append.1 member).elim (flat_of_letters letters).2 l.flat.2

theorem IsAtom.isCallable (h : IsAtom o) : IsCallable context o ∧ '(' ∉ o ∧ ')' ∉ o := by
  refine ⟨?_, h.flat⟩
  cases h with
  | literal l => exact .direct (.word l.isWord)
  | name nonempty letters => exact .direct (.word (.name nonempty letters))
  | applied l nonempty letters => exact .applied l nonempty letters

/-- A marked word, which may have a sign. -/
def IsMarked (o : Text) : Prop := ∃ lead r, IsLead lead ∧ IsWord r ∧ o = markValue (lead ++ r)

theorem IsMarked.plain (h : IsMarked o) : IsPlainOperand o := by
  obtain ⟨lead, r, sign, word, rfl⟩ := h
  exact .marked sign word

theorem IsMarked.isCallable (h : IsMarked o) (call : IsCallName context x) :
    IsCallable context (x ++ o) := by
  rcases call with rfl | ⟨f, rfl, free⟩
  · exact .direct h.plain
  · obtain ⟨lead, r, sign, word, rfl⟩ := h
    exact .called f free sign word

theorem IsChainOf.isMarked {v : Text} (h : IsChainOf (IsCallable context) ls)
    (solved : (solveSegment context (linksText ls)).outcome = .ok v) : IsMarked v := by
  rcases solveSegment_chain h with ⟨f, failed⟩ | ⟨lead, r, solved', sign, word, _⟩
  · rw [solved] at failed
    contradiction
  · rw [solved] at solved'
    cases solved'
    exact ⟨lead, r, sign, word, rfl⟩

/-- Segments of operands that can be called have marked words as their values, or a fault is to
blame. -/
theorem segmentsKeep_callable : SegmentsKeep context (IsCallable context) (IsCallName context)
    fun e => ∃ f, e = .fault f := by
  refine ⟨fun ls e chain failed => ?_, fun ls v x chain solved call =>
    (chain.isMarked solved).isCallable call⟩
  rcases solveSegment_chain chain with ⟨f, failed'⟩ | ⟨_, _, solved, _⟩
  · rw [failed] at failed'
    cases failed'
    exact ⟨f, rfl⟩
  · rw [failed] at solved
    contradiction

/-- Where only calls stand next to parentheses, an accepted expression is written with operands that
can be called. -/
theorem Accepted.isWritten_calls (h : Accepted t) (names : NamesApart t)
    (calls : CallsFunctions context t) : Written IsAtom (IsCallName context) .whole t := by
  refine (h.isWritten names).restrict (fun _ _ _ _ _ atom => atom) fun p x q shape leads letters => ?_
  by_cases empty : x = []
  · exact .inl empty
  · exact .inr (calls p x q shape empty letters leads.not_isAlpha)

end Reckoner
