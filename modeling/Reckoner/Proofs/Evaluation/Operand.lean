import Reckoner.Evaluation.Splice
import Reckoner.Proofs.Expression.Signs

set_option autoImplicit false

namespace Reckoner

/-- Operand characters, at least one. -/
def IsRow (t : Text) : Prop := t ≠ [] ∧ Solid t

/-- A row, or a marked row that may have a sign. -/
inductive IsOperand : Text → Prop
  | row {r : Text} (h : IsRow r) : IsOperand r
  | marked {lead r : Text} (sign : IsLead lead) (h : IsRow r) :
    IsOperand (openMark :: (lead ++ (r ++ [closeMark])))

/-- No operand goes on in this text. -/
def Stops (t : Text) : Prop :=
  startsWith isOperandChar t = false ∧ startsWith (· == closeMark) t = false

variable {rank : Rank} {o r t lead : Text}

theorem stops_nil : Stops [] := ⟨rfl, rfl⟩

theorem stops_symbol (operator : Operator) (t : Text) : Stops (operator.symbol :: t) := by
  cases operator <;> exact ⟨rfl, rfl⟩

theorem isLead_symbol {operator : Operator} (sum : operator.rank = .sum) :
    IsLead [operator.symbol] :=
  isLead_of_isSign (Operator.isSign_symbol_iff.2 sum)

theorem splitOne_of_not {p : Char → Bool} (h : startsWith p t = false) : splitOne p t = ([], t) := by
  cases t with
  | nil => rfl
  | cons c r =>
    have head : p c = false := by simpa [startsWith] using h
    simp only [splitOne, head, Bool.false_eq_true, if_false]

theorem splitOne_mark (mark : Char) (t : Text) :
    splitOne (· == mark) (mark :: t) = ([mark], t) := by
  simp only [splitOne, beq_self_eq_true, if_true]

theorem splitOne_lead (sign : IsLead lead) (unsigned : startsWith isSign t = false) :
    splitOne isSign (lead ++ t) = (lead, t) := by
  rcases sign with rfl | rfl | rfl
  · exact splitOne_of_not unsigned
  · rfl
  · rfl

theorem IsRow.exists_cons (h : IsRow r) : ∃ c s, r = c :: s ∧ isOperandChar c = true := by
  cases r with
  | nil => exact absurd rfl h.1
  | cons c s => exact ⟨c, s, rfl, h.2 c (.head _)⟩

theorem IsRow.startsWith (h : IsRow r) (t : Text) : startsWith isOperandChar (r ++ t) = true := by
  obtain ⟨c, s, rfl, head⟩ := h.exists_cons
  exact head

theorem IsRow.unsigned (h : IsRow r) (t : Text) : Reckoner.startsWith isSign (r ++ t) = false := by
  obtain ⟨c, s, rfl, head⟩ := h.exists_cons
  exact isSign_of_isOperandChar head

theorem not_openMark_of_isOperandChar {c : Char} (h : isOperandChar c = true) :
    (c == openMark) = false := by
  rw [beq_eq_false_iff_ne]
  rintro rfl
  exact absurd h (by decide)

theorem IsRow.unmarked (h : IsRow r) (t : Text) :
    Reckoner.startsWith (· == openMark) (r ++ t) = false := by
  obtain ⟨c, s, rfl, head⟩ := h.exists_cons
  exact not_openMark_of_isOperandChar head

theorem takeWhile_row (h : Solid r) (stop : startsWith isOperandChar t = false) :
    (r ++ t).takeWhile isOperandChar = r := by
  rw [List.takeWhile_append_of_pos h]
  cases t with
  | nil => simp
  | cons c t =>
    have head : isOperandChar c = false := by simpa [startsWith] using stop
    rw [List.takeWhile_cons_of_neg (by simp [head]), List.append_nil]

theorem dropWhile_row (h : Solid r) (stop : startsWith isOperandChar t = false) :
    (r ++ t).dropWhile isOperandChar = t := by
  rw [List.dropWhile_append_of_pos h]
  cases t with
  | nil => rfl
  | cons c t =>
    have head : isOperandChar c = false := by simpa [startsWith] using stop
    rw [List.dropWhile_cons_of_neg (by simp [head])]

theorem startsWith_dropWhile (kind : Char → Bool) (t : Text) :
    startsWith kind (t.dropWhile kind) = false := by
  have stop := List.head?_dropWhile_not kind t
  cases shape : t.dropWhile kind with
  | nil => rfl
  | cons c r =>
    rw [shape] at stop
    simpa [startsWith] using stop

theorem isRow_takeWhile (starts : startsWith isOperandChar t = true) :
    IsRow (t.takeWhile isOperandChar) := by
  refine ⟨?_, fun c => List.all_eq_true.1 List.all_takeWhile c⟩
  cases t with
  | nil => contradiction
  | cons c t =>
    have head : isOperandChar c = true := starts
    rw [List.takeWhile_cons_of_pos head]
    exact List.cons_ne_nil _ _

/-- A row is followed by a closing mark, or by what no operand goes on in. -/
theorem exists_row_front (starts : startsWith isOperandChar t = true) :
    ∃ r closing rest, t = r ++ (closing ++ rest) ∧ IsRow r ∧
      (closing = [closeMark] ∨ closing = [] ∧ Stops rest) := by
  have row := isRow_takeWhile starts
  have stop := startsWith_dropWhile isOperandChar t
  have whole : t.takeWhile isOperandChar ++ t.dropWhile isOperandChar = t :=
    List.takeWhile_append_dropWhile
  cases behind : t.dropWhile isOperandChar with
  | nil =>
    rw [behind] at whole
    exact ⟨_, [], [], whole.symm, row, .inr ⟨rfl, stops_nil⟩⟩
  | cons d u =>
    rw [behind] at whole stop
    by_cases mark : d = closeMark
    · subst mark
      exact ⟨_, [closeMark], u, whole.symm, row, .inl rfl⟩
    · exact ⟨_, [], d :: u, whole.symm, row, .inr ⟨rfl, stop, beq_false_of_ne mark⟩⟩

theorem closeOperand?_row (h : IsRow r) (stop : Stops t) (opening : Text) :
    closeOperand? opening (r ++ t) = some (opening ++ r, t) := by
  simp only [closeOperand?, h.startsWith t, if_true, takeWhile_row h.2 stop.1,
    dropWhile_row h.2 stop.1, splitOne_of_not stop.2, List.append_nil]

theorem closeOperand?_marked (h : IsRow r) (opening t : Text) :
    closeOperand? opening (r ++ closeMark :: t) = some (opening ++ r ++ [closeMark], t) := by
  have stop : startsWith isOperandChar (closeMark :: t) = false := by
    change isOperandChar closeMark = false
    decide
  simp only [closeOperand?, h.startsWith (closeMark :: t), if_true, takeWhile_row h.2 stop,
    dropWhile_row h.2 stop, splitOne_mark]

theorem closeOperand?_of_not (h : startsWith isOperandChar t = false) (opening : Text) :
    closeOperand? opening t = none := by
  simp only [closeOperand?, h, Bool.false_eq_true, if_false]

theorem splitOpening_mark (t : Text) :
    splitOpening (openMark :: t) = (openMark :: (splitOne isSign t).1, (splitOne isSign t).2) := rfl

theorem splitOpening_of_ne {c : Char} (unmarked : c ≠ openMark) (t : Text) :
    splitOpening (c :: t) = ([], c :: t) := by
  unfold splitOpening
  split
  next shape =>
    cases shape
    exact absurd rfl unmarked
  next => rfl

/-- A text that goes on with an opening mark, or the operand of which has none. -/
theorem splitOpening_cases (t : Text) :
    (∃ r, t = openMark :: r) ∨ splitOpening t = ([], t) := by
  cases t with
  | nil => exact .inr rfl
  | cons c t =>
    by_cases marked : c = openMark
    · exact .inl ⟨t, by rw [marked]⟩
    · exact .inr (splitOpening_of_ne marked t)

theorem splitOpening_row (h : IsRow r) (t : Text) : splitOpening (r ++ t) = ([], r ++ t) := by
  obtain ⟨c, s, rfl, head⟩ := h.exists_cons
  exact splitOpening_of_ne (beq_eq_false_iff_ne.1 (not_openMark_of_isOperandChar head)) (s ++ t)

theorem splitOpening_marked (sign : IsLead lead) (h : IsRow r) (t : Text) :
    splitOpening (openMark :: (lead ++ (r ++ t))) = (openMark :: lead, r ++ t) := by
  rw [splitOpening_mark, splitOne_lead sign (h.unsigned t)]

/-- An operand is read whole, whatever was read before it. -/
theorem IsOperand.closeOperand? (h : IsOperand o) (stop : Stops t) (before : Text) :
    Reckoner.closeOperand? (before ++ (splitOpening (o ++ t)).1) (splitOpening (o ++ t)).2 =
      some (before ++ o, t) := by
  cases h with
  | row h =>
    rw [splitOpening_row h, List.append_nil, closeOperand?_row h stop]
  | marked sign h =>
    simp only [List.cons_append, List.append_assoc]
    rw [splitOpening_marked sign h, List.nil_append, closeOperand?_marked h]
    simp only [List.append_assoc, List.cons_append]

theorem IsOperand.unsigned (h : IsOperand o) (t : Text) :
    startsWith isSign (o ++ t) = false := by
  cases h with
  | row h => exact h.unsigned t
  | marked sign h => rfl

theorem IsOperand.ne_nil (h : IsOperand o) : o ≠ [] := by
  cases h with
  | row h => exact h.1
  | marked sign h => exact List.cons_ne_nil _ _

theorem IsOperand.leftOperand? (h : IsOperand o) (stop : Stops t) (rank : Rank) :
    Reckoner.leftOperand? rank (o ++ t) = some (o, t) := by
  unfold Reckoner.leftOperand?
  by_cases sums : rank = .sum
  · rw [if_pos sums, splitOne_of_not (h.unsigned t)]
    exact h.closeOperand? stop []
  · rw [if_neg sums]
    exact h.closeOperand? stop []

theorem IsOperand.leftOperand?_lead (h : IsOperand o) (stop : Stops t) (sign : IsLead lead) :
    Reckoner.leftOperand? .sum (lead ++ (o ++ t)) = some (lead ++ o, t) := by
  unfold Reckoner.leftOperand?
  rw [if_pos rfl, splitOne_lead sign (h.unsigned t)]
  exact h.closeOperand? stop lead

theorem IsOperand.rightOperand? (h : IsOperand o) (stop : Stops t) (sign : IsLead lead) :
    Reckoner.rightOperand? (lead ++ (o ++ t)) = some (lead ++ o, t) := by
  unfold Reckoner.rightOperand?
  rw [splitOne_lead sign (h.unsigned t)]
  cases h with
  | row h =>
    simp only [splitOne_of_not (h.unmarked t), splitOne_of_not (h.unsigned t),
      closeOperand?_row h stop, List.append_nil]
  | @marked inner r sign' h =>
    have mark : splitOne (· == openMark) (openMark :: (inner ++ (r ++ [closeMark])) ++ t) =
        ([openMark], inner ++ (r ++ closeMark :: t)) := by
      rw [List.cons_append, splitOne_mark]
      simp only [List.append_assoc, List.cons_append, List.nil_append]
    simp only [mark, splitOne_lead sign' (h.unsigned _), closeOperand?_marked h]
    simp only [List.append_assoc, List.cons_append, List.nil_append]

/-- What stands on the left of an operator, with no sign outside of marks, can stand on the right
of one. -/
theorem exists_rightOperand? (starts : startsWith isOperandChar (splitOpening t).2 = true) :
    ∃ found, rightOperand? t = some found := by
  have close (opening r : Text) (starts : startsWith isOperandChar r = true) :
      ∃ found, closeOperand? opening r = some found := by
    unfold closeOperand?
    rw [if_pos starts]
    exact ⟨_, rfl⟩
  unfold rightOperand?
  rcases splitOpening_cases t with ⟨r, rfl⟩ | bare
  · rw [splitOpening_mark] at starts
    have first : splitOne isSign (openMark :: r) = ([], openMark :: r) := splitOne_of_not rfl
    simp only [first, splitOne_mark]
    exact close _ _ starts
  · rw [bare] at starts
    cases t with
    | nil => contradiction
    | cons c t =>
      have unsigned : startsWith isSign (c :: t) = false := isSign_of_isOperandChar starts
      have unmarked : startsWith (· == openMark) (c :: t) = false :=
        not_openMark_of_isOperandChar starts
      simp only [splitOne_of_not unsigned, splitOne_of_not unmarked]
      exact close _ _ starts

def follow? (rank : Rank) : Text → Option (Operator × Text × Text)
  | [] => none
  | c :: r =>
    match Operator.ofChar? c with
    | some operator =>
      if operator.rank = rank then
        (rightOperand? r).map fun (right, rest) => (operator, right, rest)
      else none
    | none => none

theorem operationAt?_of_leftOperand? {s left : Text}
    (found : leftOperand? rank s = some (left, t)) :
    operationAt? rank s =
      (follow? rank t).map fun (operator, right, rest) => (⟨left, operator, right⟩, rest) := by
  unfold operationAt?
  rw [found]
  cases t with
  | nil => rfl
  | cons c r =>
    simp only [follow?]
    cases Operator.ofChar? c with
    | none => rfl
    | some operator =>
      simp only
      split
      · rw [Option.map_map]
        rfl
      · rfl

theorem operationAt?_of_none {s : Text} (found : leftOperand? rank s = none) :
    operationAt? rank s = none := by
  unfold operationAt?
  rw [found]

def behind (t : Text) (found : Option (Text × Operation × Text)) :
    Option (Text × Operation × Text) :=
  found.map fun (before, rest) => (t ++ before, rest)

@[simp] theorem behind_nil (found : Option (Text × Operation × Text)) :
    behind [] found = found := by
  cases found <;> rfl

theorem behind_behind (t u : Text) (found : Option (Text × Operation × Text)) :
    behind t (behind u found) = behind (t ++ u) found := by
  cases found with
  | none => rfl
  | some found => simp only [behind, Option.map_some, List.append_assoc]

theorem findOperation?_of_found {operation : Operation} {after : Text}
    (nonempty : t ≠ []) (found : operationAt? rank t = some (operation, after)) :
    findOperation? rank t = some ([], operation, after) := by
  cases t with
  | nil => contradiction
  | cons c r =>
    unfold findOperation?
    rw [found]

theorem findOperation?_cons {c : Char} (bare : isOperandChar c = false)
    (missed : operationAt? rank (c :: t) = none) :
    findOperation? rank (c :: t) = behind [c] (findOperation? rank t) := by
  have stays : t.takeWhile (continuesRow c) = [] ∧ t.dropWhile (continuesRow c) = t := by
    cases t <;> simp [continuesRow, bare]
  rw [findOperation?, missed]
  simp only [stays.1, stays.2]
  rfl

theorem findOperation?_row (h : IsRow r) (stop : startsWith isOperandChar t = false)
    (missed : operationAt? rank (r ++ t) = none) :
    findOperation? rank (r ++ t) = behind r (findOperation? rank t) := by
  obtain ⟨c, s, rfl, head⟩ := h.exists_cons
  have solid : Solid s := fun d hd => h.2 d (.tail _ hd)
  have row : continuesRow c = isOperandChar := by
    funext d
    simp only [continuesRow, head, Bool.true_and]
  rw [List.cons_append] at missed ⊢
  rw [findOperation?, missed]
  simp only [row, takeWhile_row solid stop, dropWhile_row solid stop]
  rfl

theorem leftOperand?_of_not {c : Char} (bare : isOperandChar c = false) (unmarked : c ≠ openMark)
    (unsigned : rank = .sum → isSign c = false) : leftOperand? rank (c :: t) = none := by
  have opening := splitOpening_of_ne unmarked t
  have stop : startsWith isOperandChar (c :: t) = false := bare
  unfold leftOperand?
  by_cases sums : rank = .sum
  · have head : startsWith isSign (c :: t) = false := unsigned sums
    rw [if_pos sums, splitOne_of_not head]
    simp only [opening]
    exact closeOperand?_of_not stop _
  · rw [if_neg sums]
    simp only [opening]
    exact closeOperand?_of_not stop _

/-- A sign in front of an operand is passed over, except where sums are solved. -/
theorem findOperation?_lead (sign : IsLead lead) (products : rank ≠ .sum) (t : Text) :
    findOperation? rank (lead ++ t) = behind lead (findOperation? rank t) := by
  have skip {c : Char} (bare : isOperandChar c = false) (unmarked : c ≠ openMark) :
      findOperation? rank (c :: t) = behind [c] (findOperation? rank t) :=
    findOperation?_cons bare (operationAt?_of_none
      (leftOperand?_of_not bare unmarked fun sums => absurd sums products))
  rcases sign with rfl | rfl | rfl
  · exact (behind_nil _).symm
  · exact skip (by decide) (by decide)
  · exact skip (by decide) (by decide)

/-- The search passes over an operator of another rank. -/
theorem findOperation?_symbol {operator : Operator} (other : operator.rank ≠ rank) (t : Text) :
    findOperation? rank (operator.symbol :: t) =
      behind [operator.symbol] (findOperation? rank t) := by
  apply findOperation?_cons (Operator.not_isOperandChar_symbol operator)
  apply operationAt?_of_none
  apply leftOperand?_of_not (Operator.not_isOperandChar_symbol operator) operator.symbol_ne_openMark
  rintro rfl
  exact Operator.not_isSign_symbol other

theorem leftOperand?_marked (sign : IsLead lead) (h : IsRow r) (t : Text) (rank : Rank) :
    leftOperand? rank (openMark :: (lead ++ (r ++ closeMark :: t))) =
      some (openMark :: (lead ++ (r ++ [closeMark])), t) := by
  have first : startsWith isSign (openMark :: (lead ++ (r ++ closeMark :: t))) = false := rfl
  unfold leftOperand?
  rw [splitOne_of_not first]
  simp only [ite_self, splitOpening_marked sign h, closeOperand?_marked h, List.nil_append,
    List.cons_append, List.append_assoc]

theorem operationAt?_of_follow? {s left : Text} (found : leftOperand? rank s = some (left, t))
    (nothing : follow? rank t = none) : operationAt? rank s = none := by
  rw [operationAt?_of_leftOperand? found, nothing]
  rfl

/-- Where no operation follows a row and a closing mark, none begins inside it. -/
theorem findOperation?_closed (h : IsRow r) (nothing : follow? rank t = none) :
    findOperation? rank (r ++ closeMark :: t) =
      behind (r ++ [closeMark]) (findOperation? rank t) := by
  have closing : startsWith isOperandChar (closeMark :: t) = false := by
    change isOperandChar closeMark = false
    decide
  have left : leftOperand? rank (r ++ closeMark :: t) = some (r ++ [closeMark], t) := by
    unfold leftOperand?
    rw [splitOne_of_not (h.unsigned _)]
    simp only [ite_self, splitOpening_row h, closeOperand?_marked h, List.nil_append]
  have mark : findOperation? rank (closeMark :: t) = behind [closeMark] (findOperation? rank t) :=
    findOperation?_cons (by decide)
      (operationAt?_of_none (leftOperand?_of_not (by decide) (by decide) fun _ => by decide))
  rw [findOperation?_row h closing (operationAt?_of_follow? left nothing), mark, behind_behind]

/-- Where no operation follows an operand in marks, none begins inside it. -/
theorem findOperation?_marked (sign : IsLead lead) (h : IsRow r)
    (nothing : follow? rank t = none) :
    findOperation? rank (openMark :: (lead ++ (r ++ closeMark :: t))) =
      behind (openMark :: (lead ++ (r ++ [closeMark]))) (findOperation? rank t) := by
  have inner := findOperation?_closed h nothing
  have signed : findOperation? rank (lead ++ (r ++ closeMark :: t)) =
      behind (lead ++ (r ++ [closeMark])) (findOperation? rank t) := by
    by_cases sums : rank = .sum
    · have left : leftOperand? rank (lead ++ (r ++ closeMark :: t)) =
          some (lead ++ (r ++ [closeMark]), t) := by
        unfold leftOperand?
        rw [if_pos sums, splitOne_lead sign (h.unsigned _)]
        simp only [splitOpening_row h, closeOperand?_marked h, List.append_nil,
          List.append_assoc]
      have nowhere := operationAt?_of_follow? left nothing
      rcases sign with rfl | rfl | rfl
      · exact inner
      all_goals
        rw [List.cons_append, List.nil_append] at nowhere ⊢
        rw [findOperation?_cons (by decide) nowhere, inner, behind_behind]
    · rw [findOperation?_lead sign sums, inner, behind_behind]
  rw [findOperation?_cons (by decide)
    (operationAt?_of_follow? (leftOperand?_marked sign h t rank) nothing), signed, behind_behind]
  rfl

/-- Where no operation follows an operand, none begins inside it. -/
theorem IsOperand.findOperation? (h : IsOperand o) (stop : Stops t)
    (nothing : follow? rank t = none) :
    Reckoner.findOperation? rank (o ++ t) = behind o (Reckoner.findOperation? rank t) := by
  cases h with
  | row h =>
    have left := (IsOperand.row h).leftOperand? stop rank
    exact findOperation?_row h stop.1 (operationAt?_of_follow? left nothing)
  | @marked lead r sign h =>
    have whole := findOperation?_marked sign h nothing
    simpa only [List.cons_append, List.append_assoc, List.nil_append] using whole

end Reckoner
