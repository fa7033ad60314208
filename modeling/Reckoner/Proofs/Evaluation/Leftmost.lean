import Reckoner.Proofs.Expression.Written
import Mathlib.Data.List.Induction

set_option autoImplicit false

namespace Reckoner

variable {rank : Rank} {t s b r before after left rest tail : Text} {op : Operation} {c : Char}

/-- No row of operand characters goes on from one text into the other. -/
def IsCut (b s : Text) : Prop := endsInside false b = true → startsWith isOperandChar s = false

/-- No operation begins in front of the one that is found. Within a row of operand characters none
is looked for. -/
theorem findOperation?_leftmost (h : findOperation? rank t = some (before, op, after)) :
    ∃ rest, t = before ++ rest ∧ operationAt? rank rest = some (op, after) ∧
      ∀ b s, before = b ++ s → s ≠ [] → IsCut b s → operationAt? rank (s ++ rest) = none := by
  fun_induction findOperation? rank t generalizing before with
  | case1 => contradiction
  | case2 c r operation after' found =>
    cases h
    refine ⟨c :: r, rfl, found, fun b s shape nonempty _ => ?_⟩
    exact absurd (List.append_eq_nil_iff.1 shape.symm).2 nonempty
  | case3 c r missed ih =>
    obtain ⟨⟨inner, _, _⟩, found, same⟩ := Option.map_eq_some_iff.1 h
    cases same
    obtain ⟨rest, same, here, leftmost⟩ := ih found
    have whole : r = r.takeWhile (continuesRow c) ++ inner ++ rest := by
      rw [List.append_assoc, ← same, List.takeWhile_append_dropWhile]
    refine ⟨rest, by rw [List.cons_append, ← whole], here, fun b s shape nonempty apart => ?_⟩
    cases b with
    | nil =>
      rw [List.nil_append] at shape
      rw [← shape, List.cons_append, ← whole]
      exact missed
    | cons d b =>
      obtain ⟨rfl, cut⟩ := List.cons.inj shape
      have behind (m : Text) (cut : inner = m ++ s) (same : b = r.takeWhile (continuesRow c) ++ m) :
          operationAt? rank (s ++ rest) = none := by
        refine leftmost m s cut nonempty fun ends => apart ?_
        have some : m ≠ [] := by
          rintro rfl
          contradiction
        rw [same, ← List.cons_append, endsInside_append, endsInside_eq_of_ne_nil some _ false, ends]
      rcases List.append_eq_append_iff.1 cut with ⟨m, same, cut⟩ | ⟨m, row, cut⟩
      · exact behind m cut same
      · cases m with
        | nil => exact behind [] cut.symm (by rw [row]; simp)
        | cons e m =>
          -- The cut would go through the row that the search passes over at once.
          have inside : ∀ e' ∈ b ++ e :: m, isOperandChar c = true ∧ isOperandChar e' = true := by
            intro e' member
            rw [← row] at member
            have continued : continuesRow c e' = true := List.all_eq_true.1 List.all_takeWhile e' member
            simpa [continuesRow] using continued
          have solid : Solid (c :: b) := List.forall_mem_cons.2
            ⟨(inside e (by simp)).1, fun e' member => (inside e' (by simp [member])).2⟩
          have stop := apart (endsInside_of_solid solid (List.cons_ne_nil c b) false)
          rw [cut] at stop
          have goes : isOperandChar e = true := (inside e (by simp)).2
          rw [show startsWith isOperandChar (e :: m ++ inner) = isOperandChar e from rfl, goes] at stop
          contradiction

theorem closeOperand?_opening (opening t : Text) :
    closeOperand? opening t =
      (closeOperand? [] t).map fun (operand, rest) => (opening ++ operand, rest) := by
  unfold closeOperand?
  split
  · simp
  · rfl

theorem startsWith_of_closeOperand? {opening : Text}
    (h : closeOperand? opening t = some (left, tail)) : startsWith isOperandChar t = true := by
  by_contra stop
  rw [closeOperand?_of_not (by simpa using stop)] at h
  contradiction

theorem mem_of_closeOperand? {opening : Text} (member : c ∈ opening)
    (h : closeOperand? opening t = some (left, tail)) : c ∈ left := by
  rw [closeOperand?_opening] at h
  obtain ⟨_, _, same⟩ := Option.map_eq_some_iff.1 h
  cases same
  exact List.mem_append_left _ member

/-- An operand without an opening mark takes the one before it. -/
theorem leftOperand?_behind_mark (h : leftOperand? rank t = some (left, tail))
    (unmarked : openMark ∉ left) :
    leftOperand? rank (openMark :: t) = some (openMark :: left, tail) := by
  have behind (sign r : Text) (split : splitOne isSign t = (sign, r))
      (found : closeOperand? (sign ++ (splitOpening r).1) (splitOpening r).2 = some (left, tail)) :
      leftOperand? rank (openMark :: t) = some (openMark :: left, tail) := by
    rcases splitOpening_cases r with ⟨w, rfl⟩ | bare
    · exact absurd (mem_of_closeOperand? (by simp [splitOpening_mark]) found) unmarked
    · have first : splitOne isSign (openMark :: t) = ([], openMark :: t) := splitOne_of_not rfl
      rw [bare, List.append_nil, closeOperand?_opening] at found
      obtain ⟨⟨o, _⟩, read, same⟩ := Option.map_eq_some_iff.1 found
      cases same
      unfold leftOperand?
      simp only [first, ite_self, splitOpening_mark, split]
      rw [closeOperand?_opening, read]
      rfl
  unfold leftOperand? at h
  by_cases sums : rank = .sum
  · rw [if_pos sums] at h
    exact behind _ _ rfl h
  · rw [if_neg sums] at h
    have unsigned : startsWith isSign t = false := by
      rcases splitOpening_cases t with ⟨w, rfl⟩ | bare
      · rfl
      · simp only [bare] at h
        have starts := startsWith_of_closeOperand? h
        cases t with
        | nil => rfl
        | cons c t => exact isSign_of_isOperandChar starts
    exact behind [] t (splitOne_of_not unsigned) h

/-- An opening mark right before the left operand belongs to it. -/
theorem not_mark_before_left (h : findOperation? rank t = some (before, op, after))
    (unmarked : openMark ∉ op.left) : before.getLast? ≠ some openMark := by
  intro last
  obtain ⟨b, rfl⟩ := List.getLast?_eq_some_iff.1 last
  obtain ⟨rest, _, here, leftmost⟩ := findOperation?_leftmost h
  obtain ⟨r, left, right⟩ := operationAt?_operands here
  have nowhere := leftmost b [openMark] rfl (List.cons_ne_nil _ _) fun _ => rfl
  have found : leftOperand? rank ([openMark] ++ rest) = _ := leftOperand?_behind_mark left unmarked
  rw [operationAt?_of_leftOperand? left] at here
  rw [operationAt?_of_leftOperand? found] at nowhere
  obtain ⟨_, follows, _⟩ := Option.map_eq_some_iff.1 here
  rw [follows] at nowhere
  contradiction

/-- An operand ends with a whole row, and with the closing mark behind it if there is one. -/
theorem closeOperand?_shape {opening : Text} (h : closeOperand? opening t = some (left, tail)) :
    ∃ row closing, left = opening ++ (row ++ closing) ∧ IsRow row ∧
      (closing = [closeMark] ∨ closing = [] ∧ Stops tail) := by
  obtain ⟨r, closing, rest, rfl, row, closes⟩ := exists_row_front (startsWith_of_closeOperand? h)
  rcases closes with rfl | ⟨rfl, stops⟩
  · rw [List.singleton_append, closeOperand?_marked row] at h
    cases h
    exact ⟨r, [closeMark], List.append_assoc .., row, .inl rfl⟩
  · rw [List.nil_append, closeOperand?_row row stops] at h
    cases h
    exact ⟨r, [], by rw [List.append_nil], row, .inr ⟨rfl, stops⟩⟩

/-- Only a sign stands before the opening mark of a left operand. -/
theorem leftOperand?_marked_shape (h : leftOperand? rank t = some (left, tail))
    (marked : openMark ∈ left) : ∃ lead u, left = lead ++ openMark :: u ∧ IsLead lead := by
  have shape (lead r : Text) (sign : IsLead lead)
      (found : closeOperand? (lead ++ (splitOpening r).1) (splitOpening r).2 = some (left, tail)) :
      ∃ lead u, left = lead ++ openMark :: u ∧ IsLead lead := by
    obtain ⟨row, closing, same, operand, last⟩ := closeOperand?_shape found
    rcases splitOpening_cases r with ⟨w, rfl⟩ | bare
    · refine ⟨lead, (splitOne isSign w).1 ++ (row ++ closing), ?_, sign⟩
      rw [same, splitOpening_mark, List.append_assoc, List.cons_append]
    · have unmarked : openMark ∉ lead ++ (row ++ closing) := by
        simp only [List.mem_append, not_or]
        refine ⟨fun member => absurd (sign.signs _ member) (by decide),
          fun member => absurd (operand.2 _ member) (by decide), ?_⟩
        rcases last with rfl | ⟨rfl, _⟩ <;> decide
      rw [bare, List.append_nil] at same
      rw [same] at marked
      exact absurd marked unmarked
  unfold leftOperand? at h
  by_cases sums : rank = .sum
  · rw [if_pos sums] at h
    exact shape _ _ (isLead_splitOne t) h
  · rw [if_neg sums] at h
    exact shape [] t isLead_nil h

/-- A right operand ends as every operand does. -/
theorem rightOperand?_shape (h : rightOperand? t = some (left, tail)) :
    ∃ opening row closing, left = opening ++ (row ++ closing) ∧ IsRow row ∧
      (closing = [closeMark] ∨ closing = [] ∧ Stops tail) :=
  ⟨_, closeOperand?_shape h⟩

/-- A text that ends with an operand character ends with a whole row of them. -/
theorem exists_row (ends : endsInside false t = true) :
    ∃ b r, t = b ++ r ∧ IsRow r ∧ endsInside false b = false := by
  induction t using List.reverseRecOn with
  | nil => contradiction
  | append_singleton t c ih =>
    rw [endsInside_append] at ends
    have last : isOperandChar c = true := ends
    cases inside : endsInside false t with
    | false =>
      exact ⟨t, [c], rfl, ⟨List.cons_ne_nil c [], List.forall_mem_singleton.2 last⟩, inside⟩
    | true =>
      obtain ⟨b, r, rfl, row, outside⟩ := ih inside
      exact ⟨b, r ++ [c], by simp, ⟨by simp, row.2.append (List.forall_mem_singleton.2 last)⟩,
        outside⟩

/-- Where sums are solved, a sign with an operand behind it joins the operand that stands before. -/
theorem exists_operationAt?_sum (row : IsRow r) (closing : t = [] ∨ t = [closeMark])
    (sign : isSign c = true) (starts : startsWith isOperandChar (splitOpening s).2 = true) :
    ∃ found, operationAt? .sum (r ++ t ++ c :: s) = some found := by
  have stop : Stops (c :: s) := by
    rcases isSign_iff.1 sign with rfl | rfl <;> exact ⟨rfl, rfl⟩
  have left : leftOperand? .sum (r ++ t ++ c :: s) = some (r ++ t, c :: s) := by
    unfold leftOperand?
    rw [if_pos rfl, List.append_assoc, splitOne_of_not (row.unsigned _)]
    rcases closing with rfl | rfl
    · simp only [splitOpening_row row, List.nil_append, List.append_nil, closeOperand?_row row stop]
    · simp only [splitOpening_row row, List.cons_append, List.nil_append, closeOperand?_marked row]
  obtain ⟨operator, rank, rfl⟩ := exists_operator_of_isSign sign
  obtain ⟨⟨right, rest⟩, found⟩ := exists_rightOperand? starts
  refine ⟨(⟨r ++ t, operator, right⟩, rest), ?_⟩
  rw [operationAt?_of_leftOperand? left]
  simp only [follow?, Operator.ofChar?_symbol, rank, found, if_true, Option.map_some]

/-- An operation that begins with a sign is a sum, and its sign has an operand behind it. -/
theorem leftOperand?_sign (h : leftOperand? rank (c :: t) = some (left, tail))
    (sign : isSign c = true) :
    rank = .sum ∧ startsWith isOperandChar (splitOpening t).2 = true := by
  have bare : isOperandChar c = false := not_isOperandChar_of_isSign sign
  have unmarked : c ≠ openMark := by
    rintro rfl
    contradiction
  by_cases sums : rank = .sum
  · unfold leftOperand? at h
    have split : splitOne isSign (c :: t) = ([c], t) := by simp only [splitOne, sign, if_true]
    rw [if_pos sums, split] at h
    exact ⟨sums, startsWith_of_closeOperand? h⟩
  · rw [leftOperand?_of_not bare unmarked fun same => absurd same sums] at h
    contradiction

/-- No operand stands before an operation that begins with a sign. -/
theorem not_operand_before_sign (h : findOperation? rank t = some (before, op, after))
    (signed : startsWith isSign op.left = true) (closing : s = [] ∨ s = [closeMark])
    (shape : before = b ++ s) : endsInside false b = false := by
  by_contra ends
  obtain ⟨b, r, rfl, row, outside⟩ := exists_row (by simpa using ends)
  obtain ⟨rest, _, here, leftmost⟩ := findOperation?_leftmost h
  obtain ⟨_, left, _⟩ := operationAt?_operands here
  have whole := (isOneRow_of_leftOperand? left).1
  cases first : op.left with
  | nil =>
    rw [first] at signed
    contradiction
  | cons c l =>
    rw [first] at signed whole
    have sign : isSign c = true := signed
    rw [whole, List.cons_append] at left
    obtain ⟨rfl, starts⟩ := leftOperand?_sign left sign
    obtain ⟨found, here⟩ := exists_operationAt?_sum row closing sign starts
    have nowhere := leftmost b (r ++ s) (by rw [shape, List.append_assoc]) (by simp [row.1])
      fun inside => by
        rw [outside] at inside
        contradiction
    rw [whole, List.cons_append, here] at nowhere
    contradiction

end Reckoner
