import Reckoner.Evaluation.Operation
import Reckoner.Evaluation.Runs

set_option autoImplicit false

namespace Reckoner

/-- One row of operand characters with others around it; the row ends before `rest` begins. -/
def IsOneRow (operand rest : Text) : Prop :=
  ∃ opening row closing, operand = opening ++ row ++ closing ∧ Bare opening ∧ Solid row ∧
    row ≠ [] ∧ Bare closing ∧ startsWith isOperandChar (closing ++ rest) = false

/-- A row counts once, if it does not continue one that stands before it. -/
theorem IsOneRow.operandRuns {operand rest : Text} {inside : Bool} (h : IsOneRow operand rest)
    (apart : startsWith isOperandChar operand = true → inside = false) :
    operandRuns inside (operand ++ rest) = 1 + Reckoner.operandRuns false rest := by
  obtain ⟨opening, row, closing, rfl, bare, solid, nonempty, bareClosing, stop⟩ := h
  have outside : endsInside inside opening = false := by
    cases opening with
    | cons c r => exact endsInside_of_bare bare (by simp) _
    | nil =>
      cases row with
      | nil => contradiction
      | cons c r => exact apart (by simpa [startsWith] using solid c (.head _))
  have tail : Reckoner.operandRuns false (closing ++ rest) = Reckoner.operandRuns false rest := by
    rw [operandRuns_append, operandRuns_of_bare bareClosing, Nat.zero_add]
    cases closing with
    | nil => rfl
    | cons c r => rw [endsInside_of_bare bareClosing (by simp)]
  rw [List.append_assoc, List.append_assoc, operandRuns_append, operandRuns_of_bare bare,
    Nat.zero_add, outside, operandRuns_append, endsInside_of_solid solid nonempty,
    operandRuns_of_stop stop, tail, operandRuns_of_solid solid]
  cases row with
  | nil => contradiction
  | cons c r => rfl

theorem bare_splitOne {p : Char → Bool} (h : ∀ c, p c = true → isOperandChar c = false)
    (t : Text) : Bare (splitOne p t).1 := by
  cases t with
  | nil => exact bare_nil
  | cons d r =>
    by_cases hd : p d
    · simpa [splitOne, hd, Bare] using h d hd
    · simpa [splitOne, hd] using bare_nil

theorem bare_splitSign (t : Text) : Bare (splitOne isSign t).1 :=
  bare_splitOne (fun _ => not_isOperandChar_of_isSign) t

theorem bare_splitMark {mark : Char} (h : isOperandChar mark = false) (t : Text) :
    Bare (splitOne (· == mark) t).1 :=
  bare_splitOne (fun c hc => by rw [show c = mark from eq_of_beq hc]; exact h) t

theorem bare_splitOpening (t : Text) : Bare (splitOpening t).1 := by
  unfold splitOpening
  split
  · intro c hc
    rcases List.mem_cons.1 hc with rfl | h
    · decide
    · exact bare_splitSign _ c h
  · exact bare_nil

theorem splitOpening_append (t : Text) : (splitOpening t).1 ++ (splitOpening t).2 = t := by
  unfold splitOpening
  split
  · simp [openMark]
  · rfl

theorem isOneRow_of_closeOperand? {opening t operand rest : Text}
    (h : closeOperand? opening t = some (operand, rest)) (bare : Bare opening) :
    opening ++ t = operand ++ rest ∧ IsOneRow operand rest := by
  simp only [closeOperand?] at h
  split at h
  next starts =>
    cases h
    refine ⟨?_, opening, _, _, rfl, bare, fun c hc => List.all_eq_true.1 List.all_takeWhile c hc,
      ?_, bare_splitMark (by decide) _, ?_⟩
    · rw [List.append_assoc, List.append_assoc, splitOne_append, List.takeWhile_append_dropWhile]
    · cases t with
      | nil => simp [startsWith] at starts
      | cons c r =>
        have : isOperandChar c = true := by simpa [startsWith] using starts
        simp [this]
    · rw [splitOne_append]
      cases shape : t.dropWhile isOperandChar with
      | nil => rfl
      | cons c r =>
        have := List.head?_dropWhile_not isOperandChar t
        rw [shape] at this
        simpa [startsWith] using this
  next => contradiction

theorem isOneRow_of_leftOperand? {rank : Rank} {t operand rest : Text}
    (h : leftOperand? rank t = some (operand, rest)) :
    t = operand ++ rest ∧ IsOneRow operand rest := by
  simp only [leftOperand?] at h
  split at h
  all_goals
    obtain ⟨shape, oneRow⟩ := isOneRow_of_closeOperand? h <| by
      first
      | exact (bare_splitSign _).append (bare_splitOpening _)
      | exact bare_nil.append (bare_splitOpening _)
    rw [List.append_assoc, splitOpening_append] at shape
    refine ⟨?_, oneRow⟩
  · rw [← shape, splitOne_append]
  · exact shape

theorem isOneRow_of_rightOperand? {t operand rest : Text}
    (h : rightOperand? t = some (operand, rest)) :
    t = operand ++ rest ∧ IsOneRow operand rest := by
  simp only [rightOperand?] at h
  obtain ⟨shape, oneRow⟩ := isOneRow_of_closeOperand? h
    (((bare_splitSign _).append (bare_splitMark (by decide) _)).append (bare_splitSign _))
  rw [List.append_assoc, List.append_assoc, splitOne_append, splitOne_append, splitOne_append]
    at shape
  exact ⟨shape, oneRow⟩

theorem operationAt?_operands {rank : Rank} {t after : Text} {op : Operation}
    (h : operationAt? rank t = some (op, after)) :
    ∃ r, leftOperand? rank t = some (op.left, op.operator.symbol :: r) ∧
      rightOperand? r = some (op.right, after) := by
  unfold operationAt? at h
  split at h
  next left c r found =>
    split at h
    next operator symbol =>
      split at h
      · obtain ⟨⟨right, rest⟩, foundRight, same⟩ := Option.map_eq_some_iff.1 h
        cases same
        rw [← Operator.symbol_of_ofChar? symbol] at found
        exact ⟨r, found, foundRight⟩
      · contradiction
    next => contradiction
  next => contradiction

/-- What the leftmost operation is made of, with what stands around it. -/
theorem findOperation?_operands {rank : Rank} {t before after : Text} {op : Operation}
    (h : findOperation? rank t = some (before, op, after)) :
    t = before ++ (op.left ++ op.operator.symbol :: (op.right ++ after)) ∧
      IsOneRow op.left (op.operator.symbol :: (op.right ++ after)) ∧ IsOneRow op.right after := by
  fun_induction findOperation? rank t generalizing before with
  | case1 => contradiction
  | case2 c r operation rest found =>
    cases h
    obtain ⟨r, left, right⟩ := operationAt?_operands found
    obtain ⟨shape, leftRow⟩ := isOneRow_of_leftOperand? left
    obtain ⟨rfl, rightRow⟩ := isOneRow_of_rightOperand? right
    exact ⟨shape, leftRow, rightRow⟩
  | case3 c r missed ih =>
    obtain ⟨⟨_, _, _⟩, found, same⟩ := Option.map_eq_some_iff.1 h
    cases same
    obtain ⟨shape, rows⟩ := ih found
    refine ⟨?_, rows⟩
    rw [List.cons_append, List.append_assoc, ← shape, List.takeWhile_append_dropWhile]

/-- The leftmost operation does not begin inside a row of operand characters. -/
theorem findOperation?_before {rank : Rank} {t before after : Text} {op : Operation}
    (h : findOperation? rank t = some (before, op, after))
    (starts : startsWith isOperandChar op.left = true) : endsInside false before = false := by
  fun_induction findOperation? rank t generalizing before with
  | case1 => contradiction
  | case2 => cases h; rfl
  | case3 c r missed ih =>
    obtain ⟨⟨inner, _, _⟩, found, same⟩ := Option.map_eq_some_iff.1 h
    cases same
    rw [← List.cons_append, endsInside_append]
    by_cases empty : inner = []
    · subst empty
      have rest := (findOperation?_operands found).1
      have stop := List.head?_dropWhile_not (continuesRow c) r
      rw [rest] at stop
      cases hl : op.left with
      | nil => rw [hl] at starts; simp [startsWith] at starts
      | cons d l =>
        rw [hl] at starts stop
        have hd : isOperandChar d = true := by simpa [startsWith] using starts
        have hc : isOperandChar c = false := by simpa [continuesRow, hd] using stop
        have row : r.takeWhile (continuesRow c) = [] := by
          cases r with
          | nil => rfl
          | cons e r => simp [continuesRow, hc]
        simp [row, endsInside, hc]
    · rw [endsInside_eq_of_ne_nil empty _ false]
      exact ih found

/-- Both operands of the leftmost operation are rows of their own. -/
theorem operandRuns_of_found {rank : Rank} {t before after : Text} {op : Operation}
    (h : findOperation? rank t = some (before, op, after)) :
    operandRuns false t = operandRuns false before + (1 + (1 + operandRuns false after)) := by
  obtain ⟨shape, left, right⟩ := findOperation?_operands h
  rw [shape, operandRuns_append, left.operandRuns (findOperation?_before h),
    operandRuns_cons_bare (Operator.not_isOperandChar_symbol _), right.operandRuns fun _ => rfl]

/-- Solving the leftmost operation of a rank leaves fewer rows. -/
theorem operandRuns_solved_lt {rank : Rank} {t before after : Text} {op : Operation}
    (h : findOperation? rank t = some (before, op, after)) (x : Float) :
    operandRuns false (reduceSigns (before ++ Double.plain x ++ after)) < operandRuns false t := by
  obtain ⟨sign, size, plain, bare, solid⟩ := plain_eq_append x
  have old := operandRuns_of_found h
  have value : operandRuns (endsInside false before) (sign ++ size) ≤ 1 := by
    rw [operandRuns_append, operandRuns_of_bare bare, operandRuns_of_solid solid]
    split <;> omega
  have rest := operandRuns_le (endsInside (endsInside false before) (sign ++ size)) after
  rw [operandRuns_reduceSigns, plain, List.append_assoc, operandRuns_append, operandRuns_append]
  omega

end Reckoner
