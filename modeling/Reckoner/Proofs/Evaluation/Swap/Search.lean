import Reckoner.Proofs.Evaluation.Swap.Basic

set_option autoImplicit false

namespace Reckoner

variable {pair : Text → Text → Prop} {p q : Place} {t u o o' : Text} {c : Char} {rank : Rank}

/-- The same operand, or an exchanged one behind the same sign. -/
inductive Corresponds (pair : Text → Text → Prop) : Text → Text → Prop
  | same (t : Text) : Corresponds pair t t
  | swap {lead o o' : Text} (sign : IsLead lead) (h : pair o o') :
    Corresponds pair (lead ++ o) (lead ++ o')

/-- Both readers of an operand fail, or they read corresponding ones and leave alike texts. -/
def ReadAlike (pair : Text → Text → Prop) (q : Place) (r r' : Option (Text × Text)) : Prop :=
  (r = none ∧ r' = none) ∨ ∃ a a' t u p, r = some (a, t) ∧ r' = some (a', u) ∧
    Corresponds pair a a' ∧ (p = .other ∨ p = .swapped) ∧ Swapped pair p t u q

theorem Swapped.stops (h : Swapped pair .swapped t u q) : Stops t ∧ Stops u := by
  cases h with
  | nil => exact ⟨stops_nil, stops_nil⟩
  | char apart _ =>
    obtain ⟨operator, rfl⟩ := isOperator_iff.1 (apart rfl)
    exact ⟨stops_symbol operator _, stops_symbol operator _⟩
  | swap admits => contradiction

/-- A row of characters of one kind is read alike where no operand can be exchanged. -/
theorem Swapped.span {kind : Char → Bool} (operand : ∀ c, kind c = true → isOperandChar c = true)
    (h : Swapped pair .other t u q) : t.takeWhile kind = u.takeWhile kind ∧
      Swapped pair .other (t.dropWhile kind) (u.dropWhile kind) q := by
  generalize place : Place.other = p at h
  induction h with
  | nil p =>
    subst place
    exact ⟨rfl, .nil _⟩
  | @char p q c t u apart rest ih =>
    subst place
    by_cases taken : kind c = true
    · have next := Place.step_operandChar .other (operand c taken)
      rw [next] at ih
      obtain ⟨same, after⟩ := ih rfl
      rw [List.takeWhile_cons_of_pos taken, List.takeWhile_cons_of_pos taken,
        List.dropWhile_cons_of_pos taken, List.dropWhile_cons_of_pos taken, same]
      exact ⟨rfl, after⟩
    · rw [List.takeWhile_cons_of_neg taken, List.takeWhile_cons_of_neg taken,
        List.dropWhile_cons_of_neg taken, List.dropWhile_cons_of_neg taken]
      exact ⟨rfl, .char apart rest⟩
  | swap admits =>
    subst place
    contradiction

/-- An optional character is read alike where no operand can be exchanged. -/
theorem Swapped.splitOne {kind : Char → Bool} (h : Swapped pair p t u q)
    (closed : p.admits = false) :
    ((Reckoner.splitOne kind t).1 = [] ∧ (Reckoner.splitOne kind u).1 = [] ∧
        Swapped pair p (Reckoner.splitOne kind t).2 (Reckoner.splitOne kind u).2 q) ∨
      ∃ c, kind c = true ∧ (Reckoner.splitOne kind t).1 = [c] ∧
        (Reckoner.splitOne kind u).1 = [c] ∧
        Swapped pair (p.step c) (Reckoner.splitOne kind t).2 (Reckoner.splitOne kind u).2 q := by
  cases h with
  | nil => exact .inl ⟨rfl, rfl, .nil _⟩
  | @char _ _ c _ _ apart rest =>
    by_cases taken : kind c = true
    · simp only [Reckoner.splitOne, taken, if_true]
      exact .inr ⟨c, taken, rfl, rfl, rest⟩
    · simp only [Reckoner.splitOne, taken, Bool.false_eq_true, if_false]
      exact .inl ⟨trivial, trivial, .char apart rest⟩
  | swap admits =>
    rw [closed] at admits
    contradiction

theorem ReadAlike.none : ReadAlike pair q none none := .inl ⟨rfl, rfl⟩

theorem ReadAlike.some {a a' : Text} (same : Corresponds pair a a')
    (place : p = .other ∨ p = .swapped) (h : Swapped pair p t u q) :
    ReadAlike pair q (some (a, t)) (some (a', u)) :=
  .inr ⟨a, a', t, u, p, rfl, rfl, same, place, h⟩

/-- The row of an operand is read alike where it begins with the same character. -/
theorem Swapped.closeOperand?_char (rest : Swapped pair (p.step c) t u q) (opening : Text) :
    ReadAlike pair q (closeOperand? opening (c :: t)) (closeOperand? opening (c :: u)) := by
  by_cases operand : isOperandChar c = true
  · have starts (t : Text) : startsWith isOperandChar (c :: t) = true := operand
    rw [Place.step_operandChar p operand] at rest
    obtain ⟨same, after⟩ := rest.span fun _ h => h
    simp only [closeOperand?, starts, if_true, List.takeWhile_cons_of_pos operand,
      List.dropWhile_cons_of_pos operand, same]
    rcases after.splitOne rfl with ⟨left, right, h⟩ | ⟨d, closing, left, right, h⟩
    · rw [left, right]
      exact .some (.same _) (.inl rfl) h
    · obtain rfl : d = closeMark := eq_of_beq closing
      rw [left, right]
      exact .some (.same _) (.inl rfl) h
  · have stops (t : Text) : startsWith isOperandChar (c :: t) = false := by
      simpa [startsWith] using operand
    rw [closeOperand?_of_not (stops t), closeOperand?_of_not (stops u)]
    exact .none

theorem Swapped.closeOperand? (h : Swapped pair p t u q) (closed : p.admits = false)
    (opening : Text) :
    ReadAlike pair q (Reckoner.closeOperand? opening t) (Reckoner.closeOperand? opening u) := by
  cases h with
  | nil => exact .none
  | char _ rest => exact rest.closeOperand?_char opening
  | swap admits =>
    rw [closed] at admits
    contradiction

/-- A sign behind an opening mark and the row after it are read alike. -/
theorem Swapped.closeOperand?_opened (h : Swapped pair .opened t u q) (opening : Text) :
    ReadAlike pair q
      (Reckoner.closeOperand? (opening ++ (Reckoner.splitOne isSign t).1)
        (Reckoner.splitOne isSign t).2)
      (Reckoner.closeOperand? (opening ++ (Reckoner.splitOne isSign u).1)
        (Reckoner.splitOne isSign u).2) := by
  rcases h.splitOne rfl with ⟨left, right, h⟩ | ⟨d, sign, left, right, h⟩
  · rw [left, right]
    exact h.closeOperand? rfl _
  · rw [left, right]
    exact h.closeOperand? (Place.admits_opened_sign sign) _

/-- What an operand on the left of an operator is behind its sign is read alike where the texts begin
with the same character. -/
theorem Swapped.closeOperand?_opening (rest : Swapped pair (p.step c) t u q) (sign : Text) :
    ReadAlike pair q
      (Reckoner.closeOperand? (sign ++ (splitOpening (c :: t)).1) (splitOpening (c :: t)).2)
      (Reckoner.closeOperand? (sign ++ (splitOpening (c :: u)).1) (splitOpening (c :: u)).2) := by
  by_cases mark : c = openMark
  · subst mark
    have inner := rest.closeOperand?_opened (sign ++ [openMark])
    simp only [List.append_assoc, List.singleton_append] at inner
    exact inner
  · rw [splitOpening_of_ne mark, splitOpening_of_ne mark]
    exact rest.closeOperand?_char _

/-- What an operand on the right of an operator is behind its sign. -/
def behindSign? (sign t : Text) : Option (Text × Text) :=
  let (mark, r) := Reckoner.splitOne (· == openMark) t
  let (inner, r) := Reckoner.splitOne isSign r
  closeOperand? (sign ++ mark ++ inner) r

theorem rightOperand?_eq (t : Text) :
    rightOperand? t = behindSign? (splitOne isSign t).1 (splitOne isSign t).2 := rfl

/-- It is read alike where the texts begin with the same character. -/
theorem Swapped.behindSign? (rest : Swapped pair (p.step c) t u q)
    (closed : isSign c = true → (p.step c).admits = false) (sign : Text) :
    ReadAlike pair q (Reckoner.behindSign? sign (c :: t)) (Reckoner.behindSign? sign (c :: u)) := by
  unfold Reckoner.behindSign?
  by_cases mark : c = openMark
  · subst mark
    simp only [splitOne_mark]
    exact rest.closeOperand?_opened _
  · have opening (t : Text) : Reckoner.splitOne (· == openMark) (c :: t) = ([], c :: t) :=
      splitOne_of_not (by simpa [startsWith] using mark)
    simp only [opening]
    by_cases inner : isSign c = true
    · simp only [Reckoner.splitOne, inner, if_true]
      exact rest.closeOperand? (closed inner) _
    · simp only [Reckoner.splitOne, inner, Bool.false_eq_true, if_false]
      exact rest.closeOperand?_char _

section Operands

variable (operands : ∀ {o o'}, pair o o' → IsOperand o ∧ IsOperand o')

include operands

/-- An operand on the left of an operator is read alike. -/
theorem Swapped.leftOperand? (h : Swapped pair p t u q) (rank : Rank) :
    ReadAlike pair q (Reckoner.leftOperand? rank t) (Reckoner.leftOperand? rank u) := by
  cases h with
  | nil =>
    have none : Reckoner.leftOperand? rank [] = none := by cases rank <;> rfl
    rw [none]
    exact .none
  | swap admits same rest =>
    have stops := rest.stops
    rw [(operands same).1.leftOperand? stops.1, (operands same).2.leftOperand? stops.2]
    exact .some (.swap isLead_nil same) (.inr rfl) rest
  | @char _ _ c t u apart rest =>
    unfold Reckoner.leftOperand?
    by_cases sums : rank = .sum
    · rw [if_pos sums, if_pos sums]
      by_cases sign : isSign c = true
      · have lead := isLead_of_isSign sign
        simp only [Reckoner.splitOne, sign, if_true]
        generalize place : p.step c = p₁ at rest
        cases rest with
        | nil => exact .none
        | char _ rest => exact rest.closeOperand?_opening [c]
        | swap admits same rest =>
          have stops := rest.stops
          have left := (operands same).1.closeOperand? stops.1 [c]
          have right := (operands same).2.closeOperand? stops.2 [c]
          rw [left, right]
          exact .some (.swap lead same) (.inr rfl) rest
      · simp only [Reckoner.splitOne, sign, Bool.false_eq_true, if_false]
        exact rest.closeOperand?_opening []
    · rw [if_neg sums, if_neg sums]
      exact rest.closeOperand?_opening []

/-- Where a text is an operand behind signs, the other one is it as well, or the operand is
exchanged. -/
theorem Swapped.operand {s o : Text} (h : Swapped pair p (s ++ o) u q)
    (signs : ∀ c ∈ s, isSign c = true) (operand : IsOperand o) :
    u = s ++ o ∨ ∃ o', pair o o' ∧ u = s ++ o' := by
  induction s generalizing p u with
  | nil =>
    have read := operand.leftOperand? stops_nil .power
    rw [List.append_nil] at read
    rcases h.leftOperand? operands .power with ⟨none, _⟩ | ⟨a, a', rest, rest', place, first, second,
      corresponds, open', behind⟩
    · rw [List.nil_append, read] at none
      contradiction
    · rw [List.nil_append, read] at first
      cases first
      obtain rfl : rest' = [] := by
        generalize gone : ([] : Text) = w at behind
        cases behind with
        | nil => rfl
        | char => contradiction
        | swap admits => rcases open' with rfl | rfl <;> contradiction
      have whole := (isOneRow_of_leftOperand? second).1
      rw [List.append_nil] at whole
      subst whole
      cases corresponds with
      | same => exact .inl rfl
      | @swap lead a b sign same =>
        have unsigned := operand.unsigned []
        rcases sign with rfl | rfl | rfl
        · exact .inr ⟨_, same, rfl⟩
        · contradiction
        · contradiction
  | cons c s ih =>
    obtain ⟨first, rest⟩ := List.forall_mem_cons.1 signs
    generalize shape : c :: s ++ o = w at h
    cases h with
    | nil => contradiction
    | char apart behind =>
      cases shape
      refine (ih behind rest).imp (congrArg (c :: ·)) fun ⟨o', same, other⟩ => ?_
      exact ⟨o', same, congrArg (c :: ·) other⟩
    | @swap _ _ a a' t u admits same behind =>
      have unsigned := (operands same).1.unsigned t
      rw [← shape, List.cons_append] at unsigned
      change isSign c = false at unsigned
      rw [first] at unsigned
      contradiction

/-- An operand on the right of an operator is read alike. -/
theorem Swapped.rightOperand? (h : Swapped pair p t u q) (place : p = .operator ∨ p = .sign) :
    ReadAlike pair q (Reckoner.rightOperand? t) (Reckoner.rightOperand? u) := by
  cases h with
  | nil => exact .none
  | swap admits same rest =>
    have stops := rest.stops
    have left := (operands same).1.rightOperand? stops.1 isLead_nil
    have right := (operands same).2.rightOperand? stops.2 isLead_nil
    rw [List.nil_append, List.nil_append] at left right
    rw [left, right]
    exact .some (.swap isLead_nil same) (.inr rfl) rest
  | @char _ _ c t u apart rest =>
    rw [rightOperand?_eq, rightOperand?_eq]
    by_cases sign : isSign c = true
    · have lead := isLead_of_isSign sign
      simp only [Reckoner.splitOne, sign, if_true]
      have signed : p.step c = .sign ∨ p.step c = .signs := by
        unfold Place.step
        rw [if_pos sign]
        rcases place with rfl | rfl
        · exact .inl rfl
        · exact .inr rfl
      generalize p.step c = p₁ at rest signed
      cases rest with
      | nil => exact .none
      | @char _ _ d _ _ _ rest =>
        refine rest.behindSign? (fun sign' => ?_) [c]
        unfold Place.step
        rw [if_pos sign']
        rcases signed with rfl | rfl <;> rfl
      | swap admits same rest =>
        have stops := rest.stops
        have left := (operands same).1.rightOperand? stops.1 lead
        have right := (operands same).2.rightOperand? stops.2 lead
        rw [rightOperand?_eq, splitOne_lead lead ((operands same).1.unsigned _)] at left
        rw [rightOperand?_eq, splitOne_lead lead ((operands same).2.unsigned _)] at right
        rw [left, right]
        exact .some (.swap lead same) (.inr rfl) rest
    · simp only [Reckoner.splitOne, sign, Bool.false_eq_true, if_false]
      exact rest.behindSign? (fun sign' => absurd sign' sign) []

theorem Swapped.follow? (h : Swapped pair p t u q) (place : p = .other ∨ p = .swapped)
    (rank : Rank) : (Reckoner.follow? rank t = none ∧ Reckoner.follow? rank u = none) ∨
      ∃ operator a a' t' u' p', Reckoner.follow? rank t = some (operator, a, t') ∧
        Reckoner.follow? rank u = some (operator, a', u') ∧ Corresponds pair a a' ∧
        (p' = .other ∨ p' = .swapped) ∧ Swapped pair p' t' u' q := by
  cases h with
  | nil => exact .inl ⟨rfl, rfl⟩
  | @char _ _ c t u _ rest =>
    simp only [Reckoner.follow?]
    cases symbol : Operator.ofChar? c with
    | none => exact .inl ⟨rfl, rfl⟩
    | some operator =>
      by_cases same : operator.rank = rank
      · have next : p.step c = .operator ∨ p.step c = .sign := by
          rw [← Operator.symbol_of_ofChar? symbol]
          rcases place with rfl | rfl <;> cases operator <;> first | exact .inl rfl | exact .inr rfl
        simp only [same, if_true]
        rcases rest.rightOperand? operands next with
          ⟨left, right⟩ | ⟨a, a', t', u', p', left, right, operand, place', h⟩
        · rw [left, right]
          exact .inl ⟨rfl, rfl⟩
        · rw [left, right]
          exact .inr ⟨operator, a, a', t', u', p', rfl, rfl, operand, place', h⟩
      · simp only [same, if_false]
        exact .inl ⟨trivial, trivial⟩
  | swap admits =>
    rcases place with rfl | rfl <;> contradiction

end Operands

/-- A text that ends with an operand, whatever stands in front of it. -/
def Settles (w : Text) : Prop := w ≠ [] ∧ ∀ p : Place, p.run w = .other

/-- Neither search finds anything, or both find corresponding operations, and with the same value
in their places the texts still differ in some operands only. -/
def FoundAlike (pair : Text → Text → Prop) (p : Place) (r r' : Option (Text × Operation × Text)) :
    Prop :=
  (r = none ∧ r' = none) ∨ ∃ front front' operation operation' back back',
    r = some (front, operation, back) ∧ r' = some (front', operation', back') ∧
    operation.operator = operation'.operator ∧ Corresponds pair operation.left operation'.left ∧
    Corresponds pair operation.right operation'.right ∧
    ∀ w, Settles w → ∃ q, Swapped pair p (front ++ (w ++ back)) (front' ++ (w ++ back')) q

theorem FoundAlike.behind {a a' : Text} {r r' : Option (Text × Operation × Text)} {p' : Place}
    (h : FoundAlike pair p' r r')
    (extend : ∀ t u q, Swapped pair p' t u q → ∃ q', Swapped pair p (a ++ t) (a' ++ u) q') :
    FoundAlike pair p (Reckoner.behind a r) (Reckoner.behind a' r') := by
  rcases h with ⟨rfl, rfl⟩ | ⟨front, front', operation, operation', back, back', rfl, rfl, same,
    left, right, splice⟩
  · exact .inl ⟨rfl, rfl⟩
  · refine .inr ⟨a ++ front, a' ++ front', operation, operation', back, back', rfl, rfl, same, left,
      right, ?_⟩
    intro w settles
    obtain ⟨q, h⟩ := splice w settles
    rw [List.append_assoc, List.append_assoc]
    exact extend _ _ q h

theorem Swapped.of_swapped (h : Swapped pair .swapped t u q) : ∃ q', Swapped pair .other t u q' := by
  cases h with
  | nil => exact ⟨.other, .nil _⟩
  | char _ rest => exact ⟨q, .char Place.noConfusion rest⟩
  | swap admits => contradiction

/-- An operation that begins here is the same one in both texts, up to exchanged operands. -/
theorem FoundAlike.head {a a' b b' : Text} {operator : Operator} {p' : Place} (start : p ≠ .swapped)
    (left : Corresponds pair a a') (right : Corresponds pair b b')
    (place : p' = .other ∨ p' = .swapped) (rest : Swapped pair p' t u q) :
    FoundAlike pair p (some ([], ⟨a, operator, b⟩, t)) (some ([], ⟨a', operator, b'⟩, u)) := by
  refine .inr ⟨[], [], _, _, t, u, rfl, rfl, rfl, left, right, ?_⟩
  intro w settles
  have first : Swapped pair p w w (p.run w) := .same w start
  rw [settles.2 p] at first
  rcases place with rfl | rfl
  · exact ⟨q, first.append rest⟩
  · obtain ⟨q', rest⟩ := rest.of_swapped
    exact ⟨q', first.append rest⟩

theorem findOperation?_of_missed {r : Text} (missed : operationAt? rank (c :: r) = none) :
    findOperation? rank (c :: r) = Reckoner.behind (c :: r.takeWhile (continuesRow c))
      (findOperation? rank (r.dropWhile (continuesRow c))) := by
  rw [findOperation?, missed]
  rfl

/-- Where no operation begins with a character, the search goes on behind its row. -/
theorem Swapped.findOperation?_missed (rest : Swapped pair (p.step c) t u q)
    (apart : p = .swapped → isOperator c = true) (here : operationAt? rank (c :: t) = none)
    (here' : operationAt? rank (c :: u) = none)
    (next : ∀ {p : Place} {t' u' : Text}, t'.length < (c :: t).length → Swapped pair p t' u' q →
      p ≠ .swapped → FoundAlike pair p (findOperation? rank t') (findOperation? rank u')) :
    FoundAlike pair p (findOperation? rank (c :: t)) (findOperation? rank (c :: u)) := by
  by_cases operand : isOperandChar c = true
  · have shorter : (t.dropWhile (continuesRow c)).length < (c :: t).length :=
      Nat.lt_succ_of_le (length_dropWhile_le _ _)
    rw [findOperation?_of_missed here, findOperation?_of_missed here']
    have step := Place.step_operandChar p operand
    rw [step] at rest
    have solid : ∀ d, continuesRow c d = true → isOperandChar d = true := fun d h => by
      simp only [continuesRow, Bool.and_eq_true] at h
      exact h.2
    obtain ⟨same, after⟩ := rest.span solid
    have row : Place.run .other (t.takeWhile (continuesRow c)) = .other :=
      Place.run_solid fun d hd => solid d (List.all_eq_true.1 List.all_takeWhile d hd)
    have kept : Swapped pair .other (t.takeWhile (continuesRow c))
        (t.takeWhile (continuesRow c)) (Place.run .other (t.takeWhile (continuesRow c))) :=
      .same _ Place.noConfusion
    rw [row] at kept
    refine (next shorter after Place.noConfusion).behind fun t' u' q h => ?_
    rw [← same]
    exact ⟨q, .char apart (step.symm ▸ kept.append h)⟩
  · have bare : isOperandChar c = false := by simpa using operand
    rw [findOperation?_cons bare here, findOperation?_cons bare here']
    exact (next (Nat.lt_succ_self _) rest (p.step_ne_swapped c)).behind fun t' u' q h =>
      ⟨q, .char apart h⟩

/-- No operation begins with the sign behind an operand, if none began with the operand. -/
theorem operationAt?_quiet {r : Text} (symbol : isOperator c = true)
    (quiet : follow? rank (c :: r) = none) : operationAt? rank (c :: r) = none := by
  obtain ⟨operator, rfl⟩ := isOperator_iff.1 symbol
  have bare := Operator.not_isOperandChar_symbol operator
  apply operationAt?_of_none
  by_cases sum : rank = .sum ∧ operator.rank = .sum
  · obtain ⟨rfl, sum⟩ := sum
    have missed : rightOperand? r = none := by
      simp only [follow?, Operator.ofChar?_symbol, sum, if_true, Option.map_eq_none_iff] at quiet
      exact quiet
    unfold leftOperand?
    simp only [if_true, splitOne, Operator.isSign_symbol_iff.2 sum]
    apply closeOperand?_of_not
    by_contra starts
    obtain ⟨found, read⟩ := exists_rightOperand? (by simpa using starts)
    rw [missed] at read
    contradiction
  · exact leftOperand?_of_not bare operator.symbol_ne_openMark fun sums =>
      Operator.not_isSign_symbol fun same => sum ⟨sums, same⟩

section Operands

variable (operands : ∀ {o o'}, pair o o' → IsOperand o ∧ IsOperand o')

include operands

/-- The search finds the same in both texts, up to exchanged operands. -/
theorem Swapped.findOperation? (h : Swapped pair p t u q) (rank : Rank)
    (quiet : p = .swapped → Reckoner.follow? rank t = none ∧ Reckoner.follow? rank u = none) :
    FoundAlike pair p (Reckoner.findOperation? rank t) (Reckoner.findOperation? rank u) := by
  induction size : t.length using Nat.strongRecOn generalizing p t u with
  | ind n ih =>
  cases h with
  | nil =>
    rw [findOperation?_nil]
    exact .inl ⟨rfl, rfl⟩
  | @swap _ _ o o' t u admits same rest =>
    have start : p ≠ .swapped := by
      rintro rfl
      contradiction
    have stops := rest.stops
    have left := (operands same).1
    have right := (operands same).2
    rcases rest.follow? operands (.inr rfl) rank with
      ⟨none, none'⟩ | ⟨operator, a, a', t', u', p', found, found', operand, place, rest'⟩
    · have shorter : t.length < n := by
        rw [← size, List.length_append]
        have := List.length_pos_iff.2 left.ne_nil
        omega
      rw [left.findOperation? stops.1 none, right.findOperation? stops.2 none']
      exact (ih _ shorter rest (fun _ => ⟨none, none'⟩) rfl).behind fun t u q h =>
        ⟨q, .swap admits same h⟩
    · have here := operationAt?_of_leftOperand? (left.leftOperand? stops.1 rank)
      have here' := operationAt?_of_leftOperand? (right.leftOperand? stops.2 rank)
      rw [found] at here
      rw [found'] at here'
      rw [findOperation?_of_found (by simp [left.ne_nil]) here,
        findOperation?_of_found (by simp [right.ne_nil]) here']
      exact .head start (.swap isLead_nil same) operand place rest'
  | @char _ _ c t u apart rest =>
    have missed (here : operationAt? rank (c :: t) = none)
        (here' : operationAt? rank (c :: u) = none) :
        FoundAlike pair p (Reckoner.findOperation? rank (c :: t))
          (Reckoner.findOperation? rank (c :: u)) :=
      rest.findOperation?_missed apart here here' fun shorter h start =>
        ih _ (size ▸ shorter) h (fun same => absurd same start) rfl
    by_cases start : p = .swapped
    · obtain ⟨none, none'⟩ := quiet start
      exact missed (operationAt?_quiet (apart start) none) (operationAt?_quiet (apart start) none')
    · have whole : Swapped pair p (c :: t) (c :: u) q := .char apart rest
      rcases whole.leftOperand? operands rank with
        ⟨left, right⟩ | ⟨a, a', t', u', p', left, right, operand, place, after⟩
      · exact missed (operationAt?_of_none left) (operationAt?_of_none right)
      · have here := operationAt?_of_leftOperand? left
        have here' := operationAt?_of_leftOperand? right
        rcases after.follow? operands place rank with
          ⟨none, none'⟩ | ⟨operator, b, b', t'', u'', p'', found, found', operand', place', h⟩
        · rw [none] at here
          rw [none'] at here'
          exact missed here here'
        · rw [found] at here
          rw [found'] at here'
          rw [findOperation?_of_found (List.cons_ne_nil _ _) here,
            findOperation?_of_found (List.cons_ne_nil _ _) here']
          exact .head start operand operand' place' h

end Operands

end Reckoner
