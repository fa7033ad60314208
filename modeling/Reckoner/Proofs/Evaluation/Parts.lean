import Reckoner.Proofs.Evaluation.Alternating
import Reckoner.Proofs.Evaluation.Completion

set_option autoImplicit false

namespace Reckoner

open Double

/-- Nothing, or an opening mark with a sign at most behind it. -/
def IsOpening (t : Text) : Prop := t = [] ∨ ∃ lead, IsLead lead ∧ t = openMark :: lead

/-- A closing mark, or the end of an operand without one. -/
def IsClosing (closing t : Text) : Prop := closing = [closeMark] ∨ closing = [] ∧ Stops t

/-- The operand that is read at the beginning of a text, and what stands behind it. -/
inductive IsHead : Text → Text → Prop
  | intro {opening r closing t : Text} (opens : IsOpening opening) (row : IsRow r)
    (closes : IsClosing closing t) : IsHead (opening ++ (r ++ closing)) t

/-- The signs that an operator begins. -/
def Operator.signs (operator : Operator) : Nat := if operator.rank = .sum then 1 else 0

/-- A segment from some place on: behind so many signs in front of an operand, or behind an operand.
Signs with another one in front belong to a row. -/
inductive Parts : Option Nat → Text → Prop
  | nil : Parts none []
  | sign {n : Nat} {c : Char} {t : Text} (h : isSign c = true) (room : n < 2)
    (rest : Parts (some (n + 1)) t) : Parts (some n) (c :: t)
  | operator (operator : Operator) {t : Text} (rest : Parts (some operator.signs) t) :
    Parts none (operator.symbol :: t)
  | operand {signs : Option Nat} {o t : Text} (head : IsHead o t)
    (few : ∀ n ∈ signs, startsWith (· == openMark) o = true → n ≤ 1) (rest : Parts none t) :
    Parts signs (o ++ t)

variable {rank : Rank} {o t u lead s r opening closing : Text} {c : Char} {n : Nat}
  {signs : Option Nat} {operator : Operator}

theorem closeOperand?_closing (h : IsRow r) (closes : IsClosing closing t) (opening : Text) :
    closeOperand? opening (r ++ (closing ++ t)) = some (opening ++ (r ++ closing), t) := by
  rcases closes with rfl | ⟨rfl, stop⟩
  · rw [List.singleton_append, closeOperand?_marked h, List.append_assoc]
  · rw [List.nil_append, closeOperand?_row h stop, List.append_nil]

theorem splitOpening_opening (opens : IsOpening opening) (h : IsRow r) (t : Text) :
    splitOpening (opening ++ (r ++ t)) = (opening, r ++ t) := by
  rcases opens with rfl | ⟨lead, sign, rfl⟩
  · exact splitOpening_row h t
  · rw [List.cons_append, splitOpening_marked sign h]

/-- Where no operation follows an operand, none begins inside its row. -/
theorem findOperation?_closing (h : IsRow r) (closes : IsClosing closing t)
    (nothing : follow? rank t = none) :
    findOperation? rank (r ++ (closing ++ t)) = behind (r ++ closing) (findOperation? rank t) := by
  rcases closes with rfl | ⟨rfl, stop⟩
  · exact findOperation?_closed h nothing
  · rw [List.nil_append, List.append_nil]
    exact findOperation?_row h stop.1
      (operationAt?_of_follow? ((IsOperand.row h).leftOperand? stop rank) nothing)

theorem Stops.reduceSigns (h : Stops t) : Stops (Reckoner.reduceSigns t) := by
  cases t with
  | nil => exact h
  | cons c t =>
    by_cases sign : isSign c = true
    · have starts : startsWith isSign (Reckoner.reduceSigns (c :: t)) = true := by
        rw [startsWith_reduceSigns]
        exact sign
      cases reduced : Reckoner.reduceSigns (c :: t) with
      | nil => exact stops_nil
      | cons d u =>
        rw [reduced] at starts
        rcases isSign_iff.1 starts with rfl | rfl <;> exact ⟨rfl, rfl⟩
    · rw [reduceSigns_cons, attachSign_of_not_isSign (by simpa using sign)]
      exact h

theorem IsClosing.reduceSigns_append (h : IsClosing closing t) :
    reduceSigns (closing ++ t) = closing ++ reduceSigns t := by
  rcases h with rfl | ⟨rfl, _⟩
  · exact attachSign_of_not_isSign (by decide) _
  · rfl

namespace IsHead

variable (h : IsHead o t)

include h

theorem unsigned : startsWith isSign (o ++ t) = false := by
  obtain ⟨rfl | ⟨lead, sign, rfl⟩, row, closes⟩ := h
  · rw [List.nil_append, List.append_assoc]
    exact row.unsigned _
  · rfl

/-- It is read whole, whatever was read before it. -/
theorem closeOperand? (before : Text) :
    Reckoner.closeOperand? (before ++ (splitOpening (o ++ t)).1) (splitOpening (o ++ t)).2 =
      some (before ++ o, t) := by
  obtain ⟨opens, row, closes⟩ := h
  rw [List.append_assoc, List.append_assoc, splitOpening_opening opens row,
    closeOperand?_closing row closes, List.append_assoc]

theorem leftOperand? (rank : Rank) : Reckoner.leftOperand? rank (o ++ t) = some (o, t) := by
  unfold Reckoner.leftOperand?
  rw [splitOne_of_not h.unsigned, ite_self]
  exact h.closeOperand? []

theorem leftOperand?_lead (sign : IsLead lead) :
    Reckoner.leftOperand? .sum (lead ++ (o ++ t)) = some (lead ++ o, t) := by
  unfold Reckoner.leftOperand?
  rw [if_pos rfl, splitOne_lead sign h.unsigned]
  exact h.closeOperand? lead

theorem rightOperand? (sign : IsLead s) : Reckoner.rightOperand? (s ++ (o ++ t)) = some (s ++ o, t) := by
  unfold Reckoner.rightOperand?
  rw [splitOne_lead sign h.unsigned]
  obtain ⟨rfl | ⟨lead, sign', rfl⟩, row, closes⟩ := h
  · rw [List.nil_append, List.append_assoc]
    simp only [splitOne_of_not (row.unmarked _), splitOne_of_not (row.unsigned _), List.append_nil]
    exact closeOperand?_closing row closes s
  · rw [List.append_assoc, List.append_assoc, List.cons_append]
    simp only [splitOne_mark, splitOne_lead sign' (row.unsigned _)]
    rw [closeOperand?_closing row closes]
    simp

/-- With a sign in front no operation begins there either. -/
theorem findOperation?_lead (sign : IsLead lead) (nothing : follow? rank t = none)
    (passes : Reckoner.findOperation? rank (o ++ t) = behind o (Reckoner.findOperation? rank t)) :
    Reckoner.findOperation? rank (lead ++ (o ++ t)) =
      behind (lead ++ o) (Reckoner.findOperation? rank t) := by
  by_cases sums : rank = .sum
  · subst sums
    have nowhere := operationAt?_of_follow? (h.leftOperand?_lead sign) nothing
    rcases sign with rfl | rfl | rfl
    · exact passes
    all_goals
      rw [List.singleton_append] at nowhere ⊢
      rw [findOperation?_cons (by decide) nowhere, passes, behind_behind]
  · rw [Reckoner.findOperation?_lead sign sums, passes, behind_behind]

/-- Where no operation follows it, none begins inside it. -/
theorem findOperation? (nothing : follow? rank t = none) :
    Reckoner.findOperation? rank (o ++ t) = behind o (Reckoner.findOperation? rank t) := by
  have whole := operationAt?_of_follow? (h.leftOperand? rank) nothing
  obtain ⟨rfl | ⟨lead, sign, rfl⟩, row, closes⟩ := h
  · rw [List.nil_append, List.append_assoc]
    exact findOperation?_closing row closes nothing
  · have bare : IsHead ([] ++ (_ ++ _)) t := .intro (.inl rfl) row closes
    have inside := bare.findOperation?_lead sign nothing
      (by rw [List.nil_append, List.append_assoc, findOperation?_closing row closes nothing])
    rw [List.nil_append] at inside
    simp only [List.cons_append, List.append_assoc] at inside whole ⊢
    rw [findOperation?_cons (by decide) whole, inside, behind_behind]
    rfl

/-- Signs are reduced in front of it and behind it. -/
theorem reduceSigns_append (s : Text) :
    reduceSigns (s ++ (o ++ t)) = reduceSigns s ++ (o ++ reduceSigns t) := by
  obtain ⟨rfl | ⟨lead, sign, rfl⟩, row, closes⟩ := h
  · rw [List.nil_append, List.append_assoc, List.append_assoc, row.reduceSigns_append,
      closes.reduceSigns_append]
  · simp only [List.cons_append, List.append_assoc]
    rw [reduceSigns_append_cons (by decide), row.reduceSigns_append, sign.reduced,
      closes.reduceSigns_append]

theorem reduced : IsHead o (reduceSigns t) := by
  obtain ⟨opens, row, closes⟩ := h
  exact .intro opens row (closes.imp_right fun ⟨same, stop⟩ => ⟨same, stop.reduceSigns⟩)

theorem append (ends : t = [] → Stops u) : IsHead o (t ++ u) := by
  obtain ⟨opens, row, closes⟩ := h
  refine .intro opens row (closes.imp_right fun ⟨same, stop⟩ => ⟨same, ?_⟩)
  cases t with
  | nil => exact ends rfl
  | cons c t => exact stop

end IsHead

/-- Signs that are read with the operand behind them where it stands on the right of an operator. -/
structure Signed (s o t : Text) : Prop where
  signs : ∀ c ∈ s, isSign c = true
  head : IsHead o t
  few : s.length ≤ 2
  marked : startsWith (· == openMark) o = true → s.length ≤ 1

theorem Signed.rightOperand? (h : Signed s o t) :
    Reckoner.rightOperand? (s ++ (o ++ t)) = some (s ++ o, t) := by
  obtain ⟨signs, head, few, marked⟩ := h
  match s with
  | [] => exact head.rightOperand? isLead_nil
  | [c] => exact head.rightOperand? (isLead_of_isSign (signs c (.head _)))
  | [c, d] =>
    obtain ⟨rfl | ⟨lead, sign, rfl⟩, row, closes⟩ := head
    · have sign := signs c (.head _)
      have sign' := signs d (.tail _ (.head _))
      have unmarked (t : Text) : startsWith (· == openMark) (d :: t) = false := by
        rcases isSign_iff.1 sign' with rfl | rfl <;> rfl
      have split {c : Char} (sign : isSign c = true) (t : Text) : splitOne isSign (c :: t) = ([c], t) := by
        simp [splitOne, sign]
      unfold Reckoner.rightOperand?
      simp only [List.cons_append, List.nil_append, split sign, splitOne_of_not (unmarked _),
        split sign', List.append_assoc]
      exact closeOperand?_closing row closes [c, d]
    · exact absurd (marked rfl) (by simp)
  | _ :: _ :: _ :: _ => exact absurd few (by simp)

theorem Signed.reduced (h : Signed s o t) : Signed (reduceSigns s) o (reduceSigns t) := by
  have sign := isLead_reduceSigns h.signs
  have single : (reduceSigns s).length ≤ 1 := by
    rcases sign with same | same | same <;> rw [same] <;> decide
  exact ⟨sign.signs, h.head.reduced, by omega, fun _ => single⟩

theorem Signed.append (h : Signed s o t) (ends : t = [] → Stops u) : Signed s o (t ++ u) :=
  ⟨h.signs, h.head.append ends, h.few, h.marked⟩

/-- In front of an operand there are signs at most. -/
theorem Parts.exists_signed (h : Parts signs t) (front : signs = some n) :
    ∃ s o r, t = s ++ (o ++ r) ∧ Parts none r ∧ Signed s o r ∧ s.length ≤ 2 - n ∧
      (startsWith (· == openMark) o = true → n + s.length ≤ 1) := by
  induction h generalizing n with
  | nil => contradiction
  | operator => contradiction
  | @sign m c t sign room rest ih =>
    cases front
    obtain ⟨s, o, r, rfl, rest, ⟨signs, head, _, _⟩, few, marked⟩ := ih rfl
    have few' : (c :: s).length ≤ 2 - m := by
      rw [List.length_cons]
      omega
    have marked' (mark : startsWith (· == openMark) o = true) : m + (c :: s).length ≤ 1 := by
      have less := marked mark
      rw [List.length_cons]
      omega
    exact ⟨c :: s, o, r, rfl, rest, ⟨List.forall_mem_cons.2 ⟨sign, signs⟩, head, by omega, fun mark => by
      have less := marked' mark
      omega⟩, few', marked'⟩
  | @operand signs o t head few rest =>
    exact ⟨[], o, t, rfl, rest, ⟨nofun, head, Nat.zero_le 2, fun _ => Nat.zero_le 1⟩, Nat.zero_le _,
      fun mark => few n front mark⟩

namespace Slot

variable {outer inner : Nat} {p : Slot}

/-- A row is read up to its end, with the mark that closes it. -/
theorem Completes.exists_row (h : Completes outer inner p t)
    (starts : startsWith isOperandChar t = true) :
    ∃ r closing rest closed, t = r ++ (closing ++ rest) ∧ IsRow r ∧ IsClosing closing rest ∧
      Completes outer inner (.ended closed) rest ∧ (closed = false → Stops rest) := by
  obtain ⟨r, closing, rest, rfl, row, closes⟩ := exists_row_front starts
  obtain ⟨q, run, behind⟩ := completes_append.1 h
  obtain rfl := run.of_row row
  rcases closes with rfl | ⟨rfl, stops⟩
  · obtain ⟨_, next, behind⟩ := completes_cons.1 behind
    rw [next.of_closeMark.2] at behind
    exact ⟨r, [closeMark], rest, true, rfl, row, .inl rfl, behind, nofun⟩
  · exact ⟨r, [], rest, false, rfl, row, .inr ⟨rfl, stops⟩, behind, fun _ => stops⟩

/-- Behind an opening mark there is a row, and a sign at most in front of it. -/
theorem Completes.exists_lead (h : Completes outer 1 (.opened 0) t) :
    ∃ lead u q, t = lead ++ u ∧ IsLead lead ∧ Completes outer 1 q u ∧
      startsWith isOperandChar u = true := by
  cases t with
  | nil => exact absurd h (not_completes_nil fun _ => Slot.noConfusion)
  | cons c t =>
    obtain ⟨q, next, rest⟩ := completes_cons.1 h
    cases next with
    | operand operand => exact ⟨[], c :: t, _, rfl, isLead_nil, h, operand⟩
    | inner sign =>
      cases t with
      | nil => exact absurd rest (not_completes_nil fun _ => Slot.noConfusion)
      | cons d t =>
        obtain ⟨q, next, _⟩ := completes_cons.1 rest
        cases next with
        | operand operand => exact ⟨[c], d :: t, _, rfl, isLead_of_isSign sign, rest, operand⟩
        | inner _ room => exact absurd room (by decide)

/-- How many signs stand in front of the operand that follows. -/
def pending : Slot → Option Nat
  | free signs | opened signs => some signs
  | ended _ => none

/-- What completes a segment is made of parts, where it is shorter than this. -/
def PartsBelow (size : Nat) : Prop :=
  ∀ {p : Slot} {t : Text}, t.length < size → Completes 2 1 p t → (∀ n, p ≠ .opened n) →
    (p = .ended false → Stops t) → Parts p.pending t

/-- An operand is a part, with what its mark opens in front of its row. -/
theorem PartsBelow.operand {size : Nat} {opening u : Text} {q : Slot} {signs : Option Nat}
    (below : PartsBelow size) (opens : IsOpening opening)
    (few : ∀ n ∈ signs, startsWith (· == openMark) opening = true → n ≤ 1)
    (rest : Completes 2 1 q u) (starts : startsWith isOperandChar u = true)
    (fits : (opening ++ u).length ≤ size) : Parts signs (opening ++ u) := by
  obtain ⟨r, closing, v, closed, rfl, row, closes, rest, stops⟩ := rest.exists_row starts
  have some := List.length_pos_iff.2 row.1
  simp only [List.length_append] at fits
  have behind := below (by omega) rest (fun _ => Slot.noConfusion) fun same =>
    stops (by cases same; rfl)
  have whole : opening ++ (r ++ (closing ++ v)) = opening ++ (r ++ closing) ++ v := by simp
  rw [whole]
  refine .operand (.intro opens row closes) (fun n signs mark => few n signs ?_) behind
  rcases opens with rfl | ⟨lead, sign, rfl⟩
  · rw [List.nil_append, row.unmarked] at mark
    contradiction
  · rfl

theorem PartsBelow.marked {size : Nat} {signs : Option Nat} (below : PartsBelow size)
    (few : ∀ n ∈ signs, n ≤ 1) (rest : Completes 2 1 (.opened 0) t)
    (fits : (openMark :: t).length ≤ size) : Parts signs (openMark :: t) := by
  obtain ⟨lead, u, q, rfl, sign, rest, starts⟩ := rest.exists_lead
  have opens : IsOpening (openMark :: lead) := .inr ⟨lead, sign, rfl⟩
  exact below.operand opens (fun n signs _ => few n signs) rest starts fits

/-- A segment is made of operands, operators and signs. -/
theorem Completes.parts (h : Completes 2 1 p t) (unopened : ∀ n, p ≠ .opened n)
    (stops : p = .ended false → Stops t) : Parts p.pending t := by
  induction size : t.length using Nat.strongRecOn generalizing p t with
  | ind n ih =>
  subst size
  have below : PartsBelow t.length := fun less h unopened stops => ih _ less h unopened stops rfl
  cases t with
  | nil =>
    obtain ⟨closed, run⟩ := h
    cases run
    exact .nil
  | cons c t =>
    obtain ⟨q, next, rest⟩ := completes_cons.1 h
    have less : t.length < (c :: t).length := Nat.lt_succ_self _
    cases next with
    | operand h' =>
      have bare : IsOpening [] := .inl rfl
      exact below.operand bare (fun _ _ => nofun) h h' le_rfl
    | sign sign room => exact .sign sign room (below less rest (fun _ => Slot.noConfusion) Slot.noConfusion)
    | inner => exact absurd rfl (unopened _)
    | sum sign =>
      obtain ⟨operator, sum, rfl⟩ := exists_operator_of_isSign sign
      have behind := below less rest (fun _ => Slot.noConfusion) Slot.noConfusion
      refine .operator operator ?_
      rw [Operator.signs, if_pos sum]
      exact behind
    | binary binary =>
      obtain ⟨operator, product, rfl⟩ := exists_operator_of_isBinaryOnly binary
      have behind := below less rest (fun _ => Slot.noConfusion) Slot.noConfusion
      refine .operator operator ?_
      rw [Operator.signs, if_neg product]
      exact behind
    | enter few => exact below.marked (by rintro n ⟨⟩; exact few) rest le_rfl
    | behind => exact below.marked (fun _ member => absurd member (Option.not_mem_none _)) rest le_rfl
    | leave => exact absurd (stops rfl).2 (by simp [startsWith])

end Slot

end Reckoner
