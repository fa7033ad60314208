import Reckoner.Proofs.Evaluation.CallOperand

set_option autoImplicit false

namespace Reckoner

open Double

/-- What stands right before a place in a segment, with the number of signs behind it. -/
inductive Slot where
  | free (signs : Nat)
  | opened (signs : Nat)
  | ended (closed : Bool)

/-- The place in front of the signs. -/
def Slot.unsigned : Slot → Slot
  | free _ => free 0
  | opened _ => opened 0
  | ended closed => ended closed

def Slot.signs : Slot → Nat
  | free signs | opened signs => signs
  | ended _ => 0

/-- One character further in a segment. In front of an operand there are no more signs than the first
limit admits, and behind an opening mark no more than the second one. -/
inductive Slot.Next (outer inner : Nat) : Slot → Char → Slot → Prop
  | operand {p : Slot} {c : Char} (h : isOperandChar c = true) : Next outer inner p c (.ended false)
  | sign {n : Nat} {c : Char} (h : isSign c = true) (room : n < outer) :
    Next outer inner (.free n) c (.free (n + 1))
  | inner {n : Nat} {c : Char} (h : isSign c = true) (room : n < inner) :
    Next outer inner (.opened n) c (.opened (n + 1))
  | sum {closed : Bool} {c : Char} (h : isSign c = true) : Next outer inner (.ended closed) c (.free 1)
  | binary {closed : Bool} {c : Char} (h : isBinaryOnly c = true) :
    Next outer inner (.ended closed) c (.free 0)
  | enter {n : Nat} (few : n ≤ 1) : Next outer inner (.free n) openMark (.opened 0)
  | behind {closed : Bool} : Next outer inner (.ended closed) openMark (.opened 0)
  | leave : Next outer inner (.ended false) closeMark (.ended true)

inductive Slot.Run (outer inner : Nat) : Slot → Text → Slot → Prop
  | nil (p : Slot) : Run outer inner p [] p
  | cons {p q r : Slot} {c : Char} {t : Text} (next : Next outer inner p c q)
    (rest : Run outer inner q t r) : Run outer inner p (c :: t) r

/-- From the place to the end of a segment. -/
def Slot.Completes (outer inner : Nat) (p : Slot) (t : Text) : Prop :=
  ∃ closed, Slot.Run outer inner p t (.ended closed)

namespace Slot

variable {outer inner outer' inner' n : Nat} {p q r : Slot} {c : Char} {t u o lead : Text}
  {closed : Bool} {x : Float}

theorem run_append : Run outer inner p (t ++ u) r ↔
    ∃ q, Run outer inner p t q ∧ Run outer inner q u r := by
  induction t generalizing p with
  | nil =>
    constructor
    · exact fun run => ⟨p, .nil p, run⟩
    · rintro ⟨_, ⟨⟩, run⟩
      exact run
  | cons c t ih =>
    constructor
    · rintro (_ | ⟨next, rest⟩)
      obtain ⟨q, first, last⟩ := ih.1 rest
      exact ⟨q, .cons next first, last⟩
    · rintro ⟨q, _ | ⟨next, rest⟩, last⟩
      exact .cons next (ih.2 ⟨q, rest, last⟩)

theorem Run.append (run : Run outer inner p t q) (rest : Run outer inner q u r) :
    Run outer inner p (t ++ u) r :=
  run_append.2 ⟨q, run, rest⟩

theorem run_cons : Run outer inner p (c :: t) r ↔
    ∃ q, Next outer inner p c q ∧ Run outer inner q t r := by
  constructor
  · rintro (_ | ⟨next, rest⟩)
    exact ⟨_, next, rest⟩
  · rintro ⟨q, next, rest⟩
    exact .cons next rest

theorem completes_append : Completes outer inner p (t ++ u) ↔
    ∃ q, Run outer inner p t q ∧ Completes outer inner q u := by
  constructor
  · rintro ⟨closed, run⟩
    obtain ⟨q, first, last⟩ := run_append.1 run
    exact ⟨q, first, closed, last⟩
  · rintro ⟨q, first, closed, last⟩
    exact ⟨closed, first.append last⟩

theorem completes_cons : Completes outer inner p (c :: t) ↔
    ∃ q, Next outer inner p c q ∧ Completes outer inner q t := by
  constructor
  · rintro ⟨closed, run⟩
    obtain ⟨q, next, rest⟩ := run_cons.1 run
    exact ⟨q, next, closed, rest⟩
  · rintro ⟨q, next, closed, rest⟩
    exact ⟨closed, .cons next rest⟩

theorem Next.mono (next : Next outer inner p c q) (le : outer ≤ outer') (le' : inner ≤ inner') :
    Next outer' inner' p c q := by
  cases next with
  | operand h => exact .operand h
  | sign h room => exact .sign h (room.trans_le le)
  | inner h room => exact .inner h (room.trans_le le')
  | sum h => exact .sum h
  | binary h => exact .binary h
  | enter few => exact .enter few
  | behind => exact .behind
  | leave => exact .leave

theorem Run.mono (run : Run outer inner p t q) (le : outer ≤ outer') (le' : inner ≤ inner') :
    Run outer' inner' p t q := by
  induction run with
  | nil p => exact .nil p
  | cons next _ ih => exact .cons (next.mono le le') ih

theorem Completes.mono (h : Completes outer inner p t) (le : outer ≤ outer') (le' : inner ≤ inner') :
    Completes outer' inner' p t :=
  h.imp fun _ run => run.mono le le'

theorem Next.of_operand (next : Next outer inner p c q) (h : isOperandChar c = true) :
    q = .ended false := by
  have notSign := isSign_of_isOperandChar h
  cases next with
  | operand => rfl
  | sign sign | inner sign | sum sign =>
    rw [notSign] at sign
    contradiction
  | binary binary =>
    obtain ⟨operator, _, rfl⟩ := exists_operator_of_isBinaryOnly binary
    rw [Operator.not_isOperandChar_symbol] at h
    contradiction
  | enter | behind | leave => exact absurd h (by decide)

theorem Next.of_sign (next : Next outer inner p c q) (h : isSign c = true) :
    (∃ n, p = .free n ∧ q = .free (n + 1) ∧ n < outer) ∨
      (∃ n, p = .opened n ∧ q = .opened (n + 1) ∧ n < inner) ∨
      ∃ closed, p = .ended closed ∧ q = .free 1 := by
  cases next with
  | operand operand =>
    rw [isSign_of_isOperandChar operand] at h
    contradiction
  | sign _ room => exact .inl ⟨_, rfl, rfl, room⟩
  | inner _ room => exact .inr (.inl ⟨_, rfl, rfl, room⟩)
  | sum => exact .inr (.inr ⟨_, rfl, rfl⟩)
  | binary binary =>
    rcases isSign_iff.1 h with rfl | rfl <;> exact absurd binary (by decide)
  | enter | behind | leave => exact absurd h (by decide)

theorem Next.of_binary (next : Next outer inner p c q) (h : isBinaryOnly c = true) :
    (∃ closed, p = .ended closed) ∧ q = .free 0 := by
  cases next with
  | operand operand =>
    obtain ⟨o, _, rfl⟩ := exists_operator_of_isBinaryOnly h
    rw [Operator.not_isOperandChar_symbol] at operand
    contradiction
  | sign sign | inner sign | sum sign =>
    rcases isSign_iff.1 sign with rfl | rfl <;> exact absurd h (by decide)
  | binary => exact ⟨⟨_, rfl⟩, rfl⟩
  | enter | behind | leave => exact absurd h (by decide)

theorem Next.of_openMark (next : Next outer inner p openMark q) :
    q = .opened 0 ∧ p.signs ≤ 1 ∧ ∀ n, p ≠ .opened n := by
  cases next with
  | operand h | sign h | inner h | sum h | binary h => exact absurd h (by decide)
  | enter few => exact ⟨rfl, few, fun _ => Slot.noConfusion⟩
  | behind => exact ⟨rfl, Nat.zero_le 1, fun _ => Slot.noConfusion⟩

theorem Next.of_closeMark (next : Next outer inner p closeMark q) :
    p = .ended false ∧ q = .ended true := by
  cases next with
  | operand h | sign h | inner h | sum h | binary h => exact absurd h (by decide)
  | leave => exact ⟨rfl, rfl⟩

theorem Run.solid (solid : Solid t) (nonempty : t ≠ []) (p : Slot) :
    Run outer inner p t (.ended false) := by
  induction t generalizing p with
  | nil => exact absurd rfl nonempty
  | cons c t ih =>
    obtain ⟨first, rest⟩ := List.forall_mem_cons.1 solid
    refine .cons (.operand first) ?_
    by_cases more : t = []
    · subst more
      exact .nil _
    · exact ih rest more _

theorem run_row (h : IsRow t) (p : Slot) : Run outer inner p t (.ended false) :=
  Run.solid h.2 h.1 p

theorem Run.of_row (run : Run outer inner p t q) (h : IsRow t) : q = .ended false := by
  induction run with
  | nil => exact absurd rfl h.1
  | @cons _ _ _ c t next rest ih =>
    obtain ⟨first, solid⟩ := List.forall_mem_cons.1 h.2
    obtain rfl := next.of_operand first
    by_cases more : t = []
    · subst more
      cases rest
      rfl
    · exact ih ⟨more, solid⟩

/-- What can follow a closed operand can follow one that is not closed. -/
theorem Completes.reopened (h : Completes outer inner (.ended true) t) :
    Completes outer inner (.ended closed) t := by
  cases t with
  | nil => exact ⟨closed, .nil _⟩
  | cons c t =>
    obtain ⟨q, next, rest⟩ := completes_cons.1 h
    refine completes_cons.2 ⟨q, ?_, rest⟩
    cases next with
    | operand h => exact .operand h
    | sum h => exact .sum h
    | binary h => exact .binary h
    | behind => exact .behind

/-- No more signs are before a place than before the first one, or than the limit admits. -/
theorem Run.signs_le (run : Run outer outer p t q) (few : p.signs ≤ outer) (positive : 0 < outer) :
    q.signs ≤ outer := by
  induction run with
  | nil => exact few
  | cons next _ ih =>
    refine ih ?_
    cases next with
    | operand | binary | enter | behind | leave => exact Nat.zero_le _
    | sign _ room | inner _ room => exact room
    | sum => exact positive

theorem Next.of_unsigned (next : Next outer inner p.unsigned c q) (few : p.signs ≤ 1)
    (other : isSign c = false) : Next outer inner p c q := by
  cases p with
  | ended closed => exact next
  | free n =>
    cases next with
    | operand h => exact .operand h
    | sign h =>
      rw [other] at h
      contradiction
    | enter => exact .enter few
  | opened n =>
    cases next with
    | operand h => exact .operand h
    | inner h =>
      rw [other] at h
      contradiction

theorem not_completes_nil (open' : ∀ closed, p ≠ .ended closed) : ¬ Completes outer inner p [] := by
  rintro ⟨closed, run⟩
  cases run
  exact open' closed rfl

/-- A sign that is combined with the one behind it leads to the same place as this one. -/
theorem Completes.attachSign (h : Completes 1 1 q.unsigned t) (sign : isSign c = true)
    (one : q.signs = 1) (next : ∀ d, isSign d = true → Next 1 1 p d q) :
    Completes 1 1 p (Reckoner.attachSign c t) := by
  cases t with
  | nil =>
    refine absurd h (not_completes_nil fun closed same => ?_)
    cases q <;> cases same
    contradiction
  | cons d t =>
    by_cases signs : isSign d = true
    · rw [attachSign_of_signs sign signs]
      obtain ⟨q', next', rest⟩ := completes_cons.1 h
      obtain rfl : q' = q := by
        rcases next'.of_sign signs with ⟨n, same, rfl, _⟩ | ⟨n, same, rfl, _⟩ | ⟨_, same, _⟩ <;>
          cases q <;> cases same
        · exact congrArg Slot.free one.symm
        · exact congrArg Slot.opened one.symm
        · contradiction
      exact completes_cons.2 ⟨_, next _ (isSign_combineSigns c d), rest⟩
    · have other : isSign d = false := by simpa using signs
      rw [attachSign_of_unsigned (show startsWith isSign (d :: t) = false from other)]
      obtain ⟨q', next', rest⟩ := completes_cons.1 h
      exact completes_cons.2 ⟨q, next c sign,
        completes_cons.2 ⟨q', next'.of_unsigned one.le other, rest⟩⟩

/-- Where signs are reduced, there is one of them at most in front of an operand. -/
theorem Completes.reduceSigns (h : Completes outer inner p t) :
    Completes 1 1 p.unsigned (Reckoner.reduceSigns t) := by
  induction t generalizing p with
  | nil =>
    obtain ⟨closed, run⟩ := h
    cases run
    exact ⟨closed, .nil _⟩
  | cons c t ih =>
    obtain ⟨q, next, rest⟩ := completes_cons.1 h
    have reduced := ih rest
    rw [reduceSigns_cons]
    have bare (other : isSign c = false) (next' : Next 1 1 p.unsigned c q.unsigned) :
        Completes 1 1 p.unsigned (Reckoner.attachSign c (Reckoner.reduceSigns t)) := by
      rw [attachSign_of_not_isSign other]
      exact completes_cons.2 ⟨_, next', reduced⟩
    cases next with
    | operand h => exact bare (isSign_of_isOperandChar h) (.operand h)
    | sign h =>
      exact Completes.attachSign (q := .free 1) reduced h rfl fun _ sign => .sign sign Nat.one_pos
    | inner h =>
      exact Completes.attachSign (q := .opened 1) reduced h rfl fun _ sign => .inner sign Nat.one_pos
    | sum h => exact Completes.attachSign (q := .free 1) reduced h rfl fun _ sign => .sum sign
    | binary h =>
      refine bare ?_ (.binary h)
      rw [Bool.eq_false_iff]
      intro sign
      rcases isSign_iff.1 sign with rfl | rfl <;> exact absurd h (by decide)
    | enter => exact bare (by decide) (.enter (Nat.zero_le 1))
    | behind => exact bare (by decide) .behind
    | leave => exact bare (by decide) .leave

theorem exists_next_of_sign (sign : isSign c = true) (few : p.signs < n) : ∃ q, Next n n p c q := by
  cases p with
  | free m => exact ⟨_, .sign sign few⟩
  | opened m => exact ⟨_, .inner sign few⟩
  | ended closed => exact ⟨_, .sum sign⟩

theorem run_lead_row {row : Text} (sign : IsLead lead) (h : IsRow row) (few : p.signs < n) :
    Run n n p (lead ++ row) (.ended false) := by
  have signed {c : Char} (sign : isSign c = true) : Run n n p (c :: row) (.ended false) := by
    obtain ⟨q, next⟩ := exists_next_of_sign sign few
    exact .cons next (run_row h q)
  rcases sign with rfl | rfl | rfl
  · exact run_row h p
  · exact signed rfl
  · exact signed rfl

theorem run_plain (number : x.isNaN = false) (few : p.signs < n) :
    Run n n p (plain x) (.ended false) := by
  rw [plain_eq number]
  exact run_lead_row (isLead_valueSign x) (isTame_sizeText _).row few

/-- Where the place is once the marks are left out of the text. -/
inductive Unmarked : Slot → Slot → Prop
  | free (n : Nat) : Unmarked (.free n) (.free 0)
  | opened (n : Nat) : Unmarked (.opened n) (.free 0)
  | behind : Unmarked (.opened 0) (.ended false)
  | ended (closed : Bool) : Unmarked (.ended closed) (.ended false)

/-- Without marks and with signs reduced it is a segment as well. -/
theorem Completes.bareOperand (h : Completes outer inner p t) (unmarked : Unmarked p q) :
    Completes 1 1 q (Reckoner.bareOperand t) := by
  induction t generalizing p q with
  | nil =>
    obtain ⟨closed, run⟩ := h
    cases run
    cases unmarked
    exact ⟨false, .nil _⟩
  | cons c t ih =>
    obtain ⟨p', next, rest⟩ := completes_cons.1 h
    have kept (other : c ≠ openMark ∧ c ≠ closeMark) :
        Reckoner.bareOperand (c :: t) = Reckoner.attachSign c (Reckoner.bareOperand t) := by
      unfold Reckoner.bareOperand stripMarks
      rw [List.filter_cons_of_pos (by simp [other]), reduceSigns_cons]
    have signed (sign : isSign c = true) (reduced : Completes 1 1 (.free 0) (Reckoner.bareOperand t))
        (next : ∀ d, isSign d = true → Next 1 1 q d (.free 1)) :
        Completes 1 1 q (Reckoner.bareOperand (c :: t)) := by
      rw [kept (by rcases isSign_iff.1 sign with rfl | rfl <;> decide)]
      exact Completes.attachSign (q := .free 1) reduced sign rfl next
    cases next with
    | operand h =>
      have other : c ≠ openMark ∧ c ≠ closeMark :=
        ⟨by rintro rfl; exact absurd h (by decide), by rintro rfl; exact absurd h (by decide)⟩
      rw [kept other, attachSign_of_not_isSign (isSign_of_isOperandChar h)]
      exact completes_cons.2 ⟨_, .operand h, ih rest (.ended false)⟩
    | sign h =>
      cases unmarked
      exact signed h (ih rest (.free _)) fun _ sign => .sign sign Nat.one_pos
    | inner sign =>
      cases unmarked with
      | opened => exact signed sign (ih rest (.opened _)) fun _ sign => .sign sign Nat.one_pos
      | behind => exact signed sign (ih rest (.opened _)) fun _ sign => .sum sign
    | sum h =>
      cases unmarked
      exact signed h (ih rest (.free _)) fun _ sign => .sum sign
    | binary h =>
      cases unmarked
      obtain ⟨operator, product, rfl⟩ := exists_operator_of_isBinaryOnly h
      rw [kept (by cases operator <;> decide),
        attachSign_of_not_isSign (Operator.not_isSign_symbol product)]
      exact completes_cons.2 ⟨_, .binary h, ih rest (.free 0)⟩
    | enter =>
      cases unmarked
      exact ih rest (.opened 0)
    | behind =>
      cases unmarked
      exact ih rest .behind
    | leave =>
      cases unmarked
      exact ih rest (.ended true)

theorem Run.closes (run : Run outer inner p t (.ended true)) (none : closeMark ∉ t) :
    p = .ended true := by
  induction t generalizing p with
  | nil =>
    cases run
    rfl
  | cons c t ih =>
    obtain ⟨q, next, rest⟩ := run_cons.1 run
    obtain rfl := ih rest fun member => none (.tail _ member)
    cases next
    exact absurd (.head _) none

/-- A text without marks can stand behind an opening mark. -/
theorem Completes.run_opened {m : Nat} (h : Completes n n (.free m) t) (unopened : openMark ∉ t)
    (unclosed : closeMark ∉ t) : Run n n (.opened m) t (.ended false) := by
  induction t generalizing m with
  | nil => exact absurd h (not_completes_nil fun _ => Slot.noConfusion)
  | cons c t ih =>
    obtain ⟨q, next, rest⟩ := completes_cons.1 h
    have later : openMark ∉ t ∧ closeMark ∉ t :=
      ⟨fun member => unopened (.tail _ member), fun member => unclosed (.tail _ member)⟩
    cases next with
    | operand operand =>
      obtain ⟨closed, run⟩ := rest
      cases closed with
      | false => exact .cons (.operand operand) run
      | true => cases run.closes later.2
    | sign sign room => exact .cons (.inner sign room) (ih rest later.1 later.2)
    | enter => exact absurd (.head _) unopened

/-- A value in marks is an operand. -/
theorem Completes.markValue (h : Completes outer inner (.free 0) t)
    (enter : Next 1 1 p openMark (.opened 0)) :
    Run 1 1 p (Reckoner.markValue t) (.ended true) := by
  have inside := (h.bareOperand (.free 0)).run_opened (not_mem_bareOperand (.inl rfl) t)
    (not_mem_bareOperand (.inr rfl) t)
  exact .cons enter (inside.append (.cons .leave (.nil _)))

end Slot

end Reckoner
