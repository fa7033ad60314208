import Reckoner.Proofs.Evaluation.Faults
import Reckoner.Proofs.Evaluation.Flat
import Reckoner.Proofs.Evaluation.Precedence

set_option autoImplicit false

namespace Reckoner

open Double

def IsNumber (context : Context) (o : Text) : Prop :=
  ∃ x, Denotes context o x ∧ x.isNaN = false

/-- A fault that lies in the operands of an operation. -/
def Fault.isArithmetic (f : Fault) : Prop := f.kind = .domain ∨ f.kind = .indeterminate

variable {context : Context} {t u o lead : Text} {x y : Float} {f : Fault} {rank : Rank}
  {operator : Operator} {l c : Link} {ls a : List Link}

theorem isArithmetic_of_combine (failed : combine operator x y = .error f) : f.isArithmetic := by
  unfold combine at failed
  rcases bind_eq_error failed with result | ⟨z, _, failed⟩
  · exact .inl (kind_of_operate result)
  · split at failed
    · cases failed
      exact .inr rfl
    · contradiction

theorem isNumber_written (number : x.isNaN = false) :
    IsNumber context (sizeText (magnitude x)) := by
  have notNan := isNaN_eq_false_iff.1 number
  refine ⟨_, denotes_sizeText context notNan, ?_⟩
  rw [isNaN_eq_false_iff, magnitude_ofMagnitude _ notNan]
  exact notNan

/-- An operation on numbers fails for what they are, or its value is a number. -/
theorem IsNumber.solve (left : IsNumber context o) (right : IsNumber context u) {lead' : Text}
    (sign : IsLead lead) (sign' : IsLead lead') :
    (∃ f, Operation.solve context ⟨lead ++ o, operator, lead' ++ u⟩ = .error f ∧ f.isArithmetic) ∨
      ∃ x, Operation.solve context ⟨lead ++ o, operator, lead' ++ u⟩ = .ok x ∧
        x.isNaN = false := by
  obtain ⟨x, denotes, _⟩ := left
  obtain ⟨y, denotes', _⟩ := right
  rw [solve_of_denotes operator denotes denotes' sign sign']
  cases result : combine operator (applyLead lead x) (applyLead lead' y) with
  | error f => exact .inl ⟨f, rfl, isArithmetic_of_combine result⟩
  | ok z => exact .inr ⟨z, rfl, combine_number result⟩

/-- Fails for what the operands are, or has a value of the sort. -/
def Advances {α : Type} (sort : α → Prop) (r : Except Fault α) : Prop :=
  (∃ f, r = .error f ∧ f.isArithmetic) ∨ ∃ a, r = .ok a ∧ sort a

theorem Advances.bind {α β : Type} {sort : α → Prop} {sort' : β → Prop} {r : Except Fault α}
    {g : α → Except Fault β} (h : Advances sort r) (next : ∀ a, sort a → Advances sort' (g a)) :
    Advances sort' (r.bind g) := by
  rcases h with ⟨f, rfl, arithmetic⟩ | ⟨a, rfl, value⟩
  · exact .inl ⟨f, rfl, arithmetic⟩
  · exact next a value

theorem Advances.map {α β : Type} {sort : α → Prop} {sort' : β → Prop} {r : Except Fault α}
    {g : α → β} (h : Advances sort r) (next : ∀ a, sort a → sort' (g a)) :
    Advances sort' (r.map g) := by
  rcases h with ⟨f, rfl, arithmetic⟩ | ⟨a, rfl, value⟩
  · exact .inl ⟨f, rfl, arithmetic⟩
  · exact .inr ⟨g a, rfl, next a value⟩

def AreNumbers (context : Context) (ls : List Link) : Prop :=
  ∀ l ∈ ls, IsLead l.lead ∧ IsNumber context l.operand

theorem advances_passLinks (h : AreNumbers context (l :: ls)) :
    Advances (AreNumbers context) (passLinks context rank l ls) := by
  induction ls generalizing l with
  | nil => exact .inr ⟨[l], rfl, h⟩
  | cons next ls ih =>
    obtain ⟨first, rest⟩ := List.forall_mem_cons.1 h
    obtain ⟨second, others⟩ := List.forall_mem_cons.1 rest
    rcases next.joins_cases rank with joins | ⟨operator, glue, same⟩
    · rw [passLinks_apart joins]
      exact (ih rest).map fun a numbers => List.forall_mem_cons.2 ⟨first, numbers⟩
    · rw [passLinks_joined glue same]
      have solved : Advances (fun x => x.isNaN = false)
          (Operation.solve context ⟨l.operand, operator, next.body⟩) :=
        first.2.solve second.2 isLead_nil second.1
      refine solved.bind fun x number => ih (List.forall_mem_cons.2 ⟨⟨?_, ?_⟩, others⟩)
      · exact first.1.reduceSigns_append (isLead_valueSign x)
      · exact isNumber_written number

theorem advances_sumLinks (first : IsLead l.lead ∧ IsNumber context l.operand)
    (h : AreNumbers context ls) :
    Advances (fun c => IsLead c.lead ∧ IsNumber context c.operand) (sumLinks context l ls) := by
  induction ls generalizing l with
  | nil => exact .inr ⟨l, rfl, first⟩
  | cons next ls ih =>
    obtain ⟨second, others⟩ := List.forall_mem_cons.1 h
    have solved : Advances (fun x => x.isNaN = false)
        (Operation.solve context ⟨l.body, leadOperator next.lead, next.operand⟩) :=
      first.2.solve second.2 first.1 isLead_nil
    exact solved.bind fun x number => ih ⟨isLead_valueSign x, isNumber_written number⟩ others

/-- The chain of numbers comes to one number. -/
theorem advances_total (nonempty : ls ≠ []) (h : AreNumbers context ls) :
    Advances (fun c => IsLead c.lead ∧ IsNumber context c.operand)
      ((terms context ls).bind (total context)) := by
  have pass (rank : Rank) {ls : List Link} (nonempty : ls ≠ []) (h : AreNumbers context ls) :
      Advances (fun a => a ≠ [] ∧ AreNumbers context a) (Reckoner.pass context rank ls) := by
    cases ls with
    | nil => contradiction
    | cons l ls =>
      change Advances _ (passLinks context rank l ls)
      have passed : Advances _ (passLinks context rank l ls) := advances_passLinks h
      rcases passed with failed | ⟨a, solved, numbers⟩
      · exact .inl failed
      · refine .inr ⟨a, solved, ?_, numbers⟩
        rintro rfl
        exact passLinks_ne_ok_nil solved
  refine (pass .power nonempty h).bind (fun a ⟨nonempty, h⟩ => pass .product nonempty h) |>.bind
    fun a ⟨nonempty, h⟩ => ?_
  cases a with
  | nil => contradiction
  | cons l ls =>
    obtain ⟨first, rest⟩ := List.forall_mem_cons.1 h
    exact advances_sumLinks first rest

def Failure.isArithmetic : Failure → Prop
  | .fault f => f.isArithmetic
  | .mishap _ => False

/-- A chain of numbers fails for what they are, or is a number in marks. -/
theorem solveSegment_numbers (h : IsChainOf (IsNumber context) ls) :
    (∃ e, (solveSegment context (linksText ls)).outcome = .error e ∧ e.isArithmetic) ∨
      ∃ lead o, (solveSegment context (linksText ls)).outcome = .ok (markValue (lead ++ o)) ∧
        IsLead lead ∧ IsNumber context o := by
  obtain ⟨_, part⟩ := (h.mono fun l _ ⟨_, denotes, _⟩ => denotes.tame).part
  rw [solveSegment_links part]
  rcases advances_total h.nonempty fun l member => ⟨h.lead l member, h.operand l member⟩ with
    ⟨f, failed, arithmetic⟩ | ⟨c, solved, sign, number⟩
  · rw [failed]
    exact .inl ⟨.fault f, rfl, arithmetic⟩
  · rw [solved]
    exact .inr ⟨c.lead, c.operand, rfl, sign, number⟩

theorem IsNumber.markValue (h : IsNumber context o) (sign : IsLead lead) :
    IsNumber context (markValue (lead ++ o)) := by
  obtain ⟨x, denotes, number⟩ := h
  exact ⟨applyLead lead x, denotes.markValue sign, by rw [isNaN_applyLead, number]⟩

theorem segmentsKeep_numbers : SegmentsKeep context (IsNumber context) (fun x => x = [])
    Failure.isArithmetic := by
  refine ⟨fun ls e chain failed => ?_, fun ls v x chain solved call => ?_⟩
  · rcases solveSegment_numbers chain with ⟨e', failed', arithmetic⟩ | ⟨_, _, solved, _⟩
    · rw [failed] at failed'
      cases failed'
      exact arithmetic
    · rw [failed] at solved
      contradiction
  · subst call
    rcases solveSegment_numbers chain with ⟨_, failed, _⟩ | ⟨lead, o, solved', sign, number⟩
    · rw [solved] at failed
      contradiction
    · rw [solved] at solved'
      cases solved'
      exact number.markValue sign

/-- Without letters all operands are numerals and groups. -/
theorem Accepted.isWritten_letterless (h : Accepted t) (letterless : Letterless t) :
    Written (fun f => ∃ l : Literal, f = l.text) (fun x => x = []) .whole t := by
  have names : NamesApart t := fun u c v shape => letterless c (by rw [shape]; simp)
  refine (h.isWritten names).restrict (fun p f q shape _ atom => ?_) fun p x q shape _ call => ?_
  · have nothing {x : Text} (nonempty : x ≠ []) (letters : Letters x)
        (inside : ∀ c ∈ x, c ∈ f) : False := by
      obtain ⟨c, r, rfl⟩ := List.exists_cons_of_ne_nil nonempty
      have letter := letters c (.head _)
      rw [letterless c (by rw [shape]; simp [inside c (.head _)])] at letter
      contradiction
    cases atom with
    | literal l => exact ⟨l, rfl⟩
    | name nonempty letters => exact (nothing nonempty letters fun c => id).elim
    | applied l nonempty letters =>
      exact (nothing nonempty letters fun c => List.mem_append_left _).elim
  · cases x with
    | nil => rfl
    | cons c x =>
      have letter := call c (.head _)
      rw [letterless c (by rw [shape]; simp)] at letter
      contradiction

/-- An accepted expression without letters has a value, or fails for what the operands of one of
its operations are. All its operations are applied: what is left is one row with its sign. -/
theorem solveExpression_letterless (context : Context) (t : Text) (accepted : Accepted t)
    (letterless : Letterless t) :
    (∃ f, (solveExpression context t).outcome = .error (.fault f) ∧
      (f.kind = .domain ∨ f.kind = .indeterminate)) ∨
    ∃ x lead r, (solveExpression context t).outcome = .ok x ∧ x.isNaN = false ∧
      (solveGroups context [] [] (t ++ [')'])).outcome =
        .ok (openMark :: (lead ++ (r ++ [closeMark]))) ∧ IsLead lead ∧ IsRow r := by
  have atoms (f : Text) (atom : ∃ l : Literal, f = l.text) :
      IsNumber context f ∧ '(' ∉ f ∧ ')' ∉ f := by
    obtain ⟨l, rfl⟩ := atom
    exact ⟨⟨l.value, l.denotes, l.number⟩, l.flat⟩
  have calls (x : Text) (empty : x = []) : '(' ∉ x ∧ ')' ∉ x := by simp [empty]
  rw [solveExpression_outcome]
  rcases (accepted.isWritten_letterless letterless).solveExpression segmentsKeep_numbers atoms calls
    with ⟨e, failed, arithmetic⟩ | ⟨ls, chain, same⟩
  · rw [failed]
    cases e with
    | fault f => exact .inl ⟨f, rfl, arithmetic⟩
    | mishap m => exact arithmetic.elim
  · rcases solveSegment_numbers chain with ⟨e, failed, arithmetic⟩ | ⟨lead, o, solved, sign, number⟩
    · rw [same, failed]
      cases e with
      | fault f => exact .inl ⟨f, rfl, arithmetic⟩
      | mishap m => exact arithmetic.elim
    · obtain ⟨x, denotes, notNan⟩ := number
      obtain ⟨lead', r, _, sign', tame, bare, _⟩ := denotes.bareOperand sign
      have marked := (denotes.markValue sign).resolve isLead_nil
      rw [List.nil_append] at marked
      have written : markValue (lead ++ o) = openMark :: (lead' ++ (r ++ [closeMark])) := by
        rw [Reckoner.markValue, bare, List.cons_append, List.append_assoc]
      rw [same, solved]
      refine .inr ⟨applyLead lead x, lead', r, ?_, by rw [isNaN_applyLead, notNan],
        by rw [written], sign', tame.row⟩
      simp only [Except.bind, marked.1]
      rfl

/-- This quotient is infinite, and its dividend has two signs in a row once its group is solved. -/
theorem solveExpression_letterless_sample :
    (∃ f, (solveExpression ⟨[], .degrees⟩ ['-', '2', '*', '(', '1', '-', '3', ')', '/', '0']).outcome =
        .error (.fault f) ∧ (f.kind = .domain ∨ f.kind = .indeterminate)) ∨
    ∃ x lead r,
      (solveExpression ⟨[], .degrees⟩ ['-', '2', '*', '(', '1', '-', '3', ')', '/', '0']).outcome =
          .ok x ∧ x.isNaN = false ∧
        (solveGroups ⟨[], .degrees⟩ [] []
            (['-', '2', '*', '(', '1', '-', '3', ')', '/', '0'] ++ [')'])).outcome =
          .ok (openMark :: (lead ++ (r ++ [closeMark]))) ∧ IsLead lead ∧ IsRow r := by
  have written : (canonical [] ['-', '2', '(', '1', '-', '3', ')', '/', '0']).outcome =
      .ok ['-', '2', '*', '(', '1', '-', '3', ')', '/', '0'] := by decide +kernel
  refine solveExpression_letterless _ _ ⟨⟨_, _, written⟩, by decide +kernel⟩ ?_
  unfold Letterless
  decide

end Reckoner
