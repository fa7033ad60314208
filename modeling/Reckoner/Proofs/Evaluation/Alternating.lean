import Reckoner.Proofs.Evaluation.Links
import Reckoner.Proofs.Outcome

set_option autoImplicit false

namespace Reckoner

open Double

/-- Signs that are read with the operand behind them: one at most, or two before a row. -/
inductive Front : Text → Text → Prop
  | one {lead o : Text} (sign : IsLead lead) (operand : IsOperand o) : Front lead o
  | two {lead lead' r : Text} (sign : IsLead lead) (sign' : IsLead lead') (row : IsRow r) :
    Front (lead ++ lead') r

/-- Operands, each with its signs, and one operator between two of them; with the ranks of the
operators. -/
inductive Alternates : List Rank → List Text → Text → Prop
  | last {lead o : Text} (front : Front lead o) : Alternates [] [o] (lead ++ o)
  | join {lead o t : Text} {ranks : List Rank} {os : List Text} (front : Front lead o)
    (operator : Operator) (rest : Alternates ranks os t) :
    Alternates (operator.rank :: ranks) (o :: os) (lead ++ (o ++ operator.symbol :: t))

/-- What stands behind an operand. -/
inductive Tail : List Rank → List Text → Text → Prop
  | nil : Tail [] [] []
  | cons {t : Text} {ranks : List Rank} {os : List Text} (operator : Operator)
    (rest : Alternates ranks os t) : Tail (operator.rank :: ranks) os (operator.symbol :: t)

def IsWritten (o : Text) : Prop := ∃ x : Float, x.isNaN = false ∧ o = sizeText (magnitude x)

variable {context : Context} {ranks ranks' ranks'' : List Rank} {os os' os'' : List Text}
  {t u s lead o : Text} {rank : Rank} {operator : Operator} {x : Float} {c : Char}

theorem Front.operand (h : Front lead o) : IsOperand o := by
  cases h with
  | one _ operand => exact operand
  | two _ _ row => exact .row row

/-- Two signs, where they are not one. -/
theorem Front.cases (h : Front lead o) :
    (IsLead lead ∧ IsOperand o) ∨
      ∃ c d, lead = [c, d] ∧ isSign c = true ∧ isSign d = true ∧ IsRow o := by
  cases h with
  | one sign operand => exact .inl ⟨sign, operand⟩
  | @two a b r sign sign' row =>
    have both : ∀ c ∈ a ++ b, isSign c = true :=
      List.forall_mem_append.2 ⟨sign.signs, sign'.signs⟩
    rcases sign with rfl | rfl | rfl
    · exact .inl ⟨sign', .row row⟩
    all_goals
      rcases sign' with rfl | rfl | rfl
      · refine .inl ⟨?_, .row row⟩
        first
        | exact .inr (.inl rfl)
        | exact .inr (.inr rfl)
      all_goals exact .inr ⟨_, _, rfl, both _ (.head _), both _ (.tail _ (.head _)), row⟩

theorem Front.signs (h : Front lead o) : ∀ c ∈ lead, isSign c = true := by
  cases h with
  | one sign _ => exact sign.signs
  | two sign sign' _ => exact List.forall_mem_append.2 ⟨sign.signs, sign'.signs⟩

/-- Signs reduce to one at most. -/
theorem isLead_reduceSigns (signs : ∀ c ∈ s, isSign c = true) : IsLead (reduceSigns s) := by
  induction s with
  | nil => exact isLead_nil
  | cons c s ih =>
    obtain ⟨sign, rest⟩ := List.forall_mem_cons.1 signs
    have first := isLead_of_isSign sign
    have whole := first.reduceSigns_append (ih rest)
    rwa [reduceSigns_append_reduceSigns] at whole

/-- A sign less leaves signs that are read with the operand as well. -/
theorem Front.tail (h : Front (c :: lead) o) : Front lead o := by
  rcases h.cases with ⟨sign, operand⟩ | ⟨d, e, shape, _, sign, row⟩
  · rcases sign with none | plus | minus
    · contradiction
    · exact .one (.inl (List.cons.inj plus).2) operand
    · exact .one (.inl (List.cons.inj minus).2) operand
  · rw [(List.cons.inj shape).2]
    exact .one (isLead_of_isSign sign) (.row row)

theorem Front.rightOperand? (h : Front lead o) (stop : Stops t) :
    Reckoner.rightOperand? (lead ++ (o ++ t)) = some (lead ++ o, t) := by
  rcases h.cases with ⟨sign, operand⟩ | ⟨c, d, rfl, sign, sign', row⟩
  · exact operand.rightOperand? stop sign
  · have unmarked : startsWith (· == openMark) (d :: (o ++ t)) = false := by
      rcases isSign_iff.1 sign' with rfl | rfl <;> rfl
    have first : splitOne isSign ([c, d] ++ (o ++ t)) = ([c], d :: (o ++ t)) := by
      simp [splitOne, sign]
    have second : splitOne isSign (d :: (o ++ t)) = ([d], o ++ t) := by
      simp [splitOne, sign']
    unfold Reckoner.rightOperand?
    simp only [first, splitOne_of_not unmarked, second, closeOperand?_row row stop]
    rfl

theorem Front.passes (h : Front lead o) (products : rank ≠ .sum) (t : Text) :
    findOperation? rank (lead ++ t) = behind lead (findOperation? rank t) := by
  cases h with
  | one sign _ => exact findOperation?_lead sign products t
  | two sign sign' _ =>
    rw [List.append_assoc, findOperation?_lead sign products, findOperation?_lead sign' products,
      behind_behind]

/-- A sum has at most one sign in front of its first operand. -/
theorem operationAt?_signs {d : Char} (sign : isSign c = true) (sign' : isSign d = true) :
    operationAt? .sum (c :: d :: t) = none := by
  apply operationAt?_of_none
  have opening : splitOpening (d :: t) = ([], d :: t) := by
    rcases isSign_iff.1 sign' with rfl | rfl <;> rfl
  have bare : startsWith isOperandChar (d :: t) = false := not_isOperandChar_of_isSign sign'
  simp only [leftOperand?, if_true, splitOne, sign, opening]
  exact closeOperand?_of_not bare _

/-- An operation that begins with the operand is found, behind signs at most: the same ones, whatever
follows the operand. -/
theorem Front.found (h : Front lead o) (rank : Rank) :
    ∃ before s, (∀ c ∈ before, isSign c = true) ∧ (∀ c ∈ s, isSign c = true) ∧
      ∀ {t operator right after}, Stops t → follow? rank t = some (operator, right, after) →
        findOperation? rank (lead ++ (o ++ t)) = some (before, ⟨s ++ o, operator, right⟩, after) := by
  have operand := h.operand
  have nonempty (s t : Text) : s ++ (o ++ t) ≠ [] := by simp [operand.ne_nil]
  by_cases sums : rank = .sum
  · subst sums
    have signed {s t : Text} {operator : Operator} {right after : Text} (sign : IsLead s)
        (stop : Stops t) (following : follow? .sum t = some (operator, right, after)) :
        findOperation? .sum (s ++ (o ++ t)) = some ([], ⟨s ++ o, operator, right⟩, after) := by
      have found := operationAt?_of_leftOperand? (operand.leftOperand?_lead stop sign)
      rw [following] at found
      exact findOperation?_of_found (nonempty s t) found
    rcases h.cases with ⟨sign, _⟩ | ⟨c, d, rfl, sign, sign', _⟩
    · exact ⟨[], lead, nofun, sign.signs, signed sign⟩
    · refine ⟨[c], [d], by simpa using sign, by simpa using sign', ?_⟩
      intro t operator right after stop following
      have second : findOperation? .sum (d :: (o ++ t)) = _ :=
        signed (isLead_of_isSign sign') stop following
      change findOperation? .sum (c :: d :: (o ++ t)) = _
      rw [findOperation?_cons (not_isOperandChar_of_isSign sign) (operationAt?_signs sign sign'),
        second]
      rfl
  · refine ⟨lead, [], h.signs, nofun, ?_⟩
    intro t operator right after stop following
    have found := operationAt?_of_leftOperand? (operand.leftOperand? stop rank)
    rw [following] at found
    have first : findOperation? rank (o ++ t) = _ := findOperation?_of_found (nonempty [] t) found
    rw [h.passes sums, first]
    simp only [behind, Option.map_some, List.append_nil, List.nil_append]

/-- Where none begins with the operand, the search passes over it. -/
theorem Front.missed (h : Front lead o) (stop : Stops t) (nothing : follow? rank t = none) :
    findOperation? rank (lead ++ (o ++ t)) = behind (lead ++ o) (findOperation? rank t) := by
  have operand := h.operand
  have rest := operand.findOperation? stop nothing
  by_cases sums : rank = .sum
  · subst sums
    have signed {c : Char} (sign : isSign c = true) :
        findOperation? .sum (c :: (o ++ t)) = behind (c :: o) (findOperation? .sum t) := by
      have nowhere := operationAt?_of_leftOperand?
        (operand.leftOperand?_lead stop (isLead_of_isSign sign))
      rw [nothing, List.singleton_append] at nowhere
      rw [findOperation?_cons (not_isOperandChar_of_isSign sign) nowhere, rest, behind_behind]
      rfl
    rcases h.cases with ⟨none | plus | minus, _⟩ | ⟨c, d, rfl, sign, sign', _⟩
    · rw [none]
      exact rest
    · rw [plus]
      exact signed rfl
    · rw [minus]
      exact signed rfl
    · change findOperation? .sum (c :: d :: (o ++ t)) = _
      rw [findOperation?_cons (not_isOperandChar_of_isSign sign) (operationAt?_signs sign sign'),
        signed sign', behind_behind]
      rfl
  · rw [h.passes sums, rest, behind_behind]

theorem Tail.stops (h : Tail ranks os t) : Stops t := by
  cases h with
  | nil => exact stops_nil
  | cons operator _ => exact stops_symbol operator _

theorem Tail.alternates (h : Tail ranks os t) (front : Front lead o) :
    Alternates ranks (o :: os) (lead ++ (o ++ t)) := by
  cases h with
  | nil =>
    rw [List.append_nil]
    exact .last front
  | cons operator rest => exact .join front operator rest

theorem Alternates.exists_front (h : Alternates ranks os t) :
    ∃ lead o tail os', t = lead ++ (o ++ tail) ∧ os = o :: os' ∧ Front lead o ∧
      Tail ranks os' tail := by
  cases h with
  | @last lead o front => exact ⟨lead, o, [], [], by rw [List.append_nil], rfl, front, .nil⟩
  | join front operator rest => exact ⟨_, _, _, _, rfl, rfl, front, .cons operator rest⟩

/-- A sign before a text, and the text with one sign less or the same. -/
theorem Alternates.attachSign (h : Alternates ranks os t) (operator : Operator) :
    ∃ (operator' : Operator) (u : Text), Reckoner.attachSign operator.symbol t =
      operator'.symbol :: u ∧ operator'.rank = operator.rank ∧ Alternates ranks os u := by
  by_cases sign : isSign operator.symbol = true
  · obtain ⟨lead, o, tail, os', rfl, rfl, front, rest⟩ := h.exists_front
    cases lead with
    | nil =>
      refine ⟨operator, _, ?_, rfl, rest.alternates front⟩
      exact attachSign_of_unsigned (front.operand.unsigned tail) _
    | cons c lead =>
      obtain ⟨operator', combined⟩ : ∃ operator' : Operator,
          operator'.symbol = combineSigns operator.symbol c := by
        unfold combineSigns
        split
        · exact ⟨.add, rfl⟩
        · exact ⟨.subtract, rfl⟩
      have sign' : isSign operator'.symbol = true := combined ▸ isSign_combineSigns _ _
      refine ⟨operator', lead ++ (o ++ tail), ?_, ?_, rest.alternates front.tail⟩
      · rw [combined]
        exact attachSign_of_signs sign (front.signs c (.head _)) _
      · rw [Operator.isSign_symbol_iff.1 sign, Operator.isSign_symbol_iff.1 sign']
  · exact ⟨operator, t, attachSign_of_not_isSign (by simpa using sign) t, rfl, h⟩

theorem Tail.of_reduced (rest : Alternates ranks os (reduceSigns t)) (operator : Operator) :
    Tail (operator.rank :: ranks) os (reduceSigns (operator.symbol :: t)) := by
  obtain ⟨operator', u, shape, same, h⟩ := rest.attachSign operator
  rw [reduceSigns_cons, shape, ← same]
  exact .cons operator' h

/-- Behind signs and an operand, signs are reduced on their own. -/
theorem Tail.of_front (tail : Tail ranks os (reduceSigns t)) (operand : IsOperand o)
    (signs : ∀ c ∈ s, isSign c = true) :
    Alternates ranks (o :: os) (reduceSigns (s ++ (o ++ t))) := by
  rw [operand.reduceSigns_append]
  exact tail.alternates (.one (isLead_reduceSigns signs) operand)

theorem Alternates.reduceSigns (h : Alternates ranks os t) :
    Alternates ranks os (Reckoner.reduceSigns t) := by
  induction h with
  | @last lead o front =>
    have nothing : Tail [] [] (Reckoner.reduceSigns []) := .nil
    have whole := nothing.of_front front.operand front.signs
    rwa [List.append_nil] at whole
  | join front operator rest ih =>
    exact (Tail.of_reduced ih operator).of_front front.operand front.signs

theorem Tail.reduceSigns (h : Tail ranks os t) : Tail ranks os (Reckoner.reduceSigns t) := by
  cases h with
  | nil => exact .nil
  | cons operator rest => exact .of_reduced rest.reduceSigns operator

/-- A value between signs and the rest is one operand, with a sign at most. -/
theorem Tail.splice (tail : Tail ranks os t) (signs : ∀ c ∈ s, isSign c = true)
    (number : x.isNaN = false) :
    Alternates ranks (sizeText (magnitude x) :: os) (Reckoner.reduceSigns (s ++ plain x ++ t)) := by
  have whole : s ++ plain x ++ t = (s ++ valueSign x) ++ (sizeText (magnitude x) ++ t) := by
    rw [plain_eq number]
    simp
  rw [whole]
  exact tail.reduceSigns.of_front (.row (isTame_sizeText _).row)
    (List.forall_mem_append.2 ⟨signs, (isLead_valueSign x).signs⟩)

/-- What an operation leaves: fewer operators, and its value among the operands. -/
structure Spliced (ranks : List Rank) (os : List Text) (ranks' : List Rank) (os' : List Text) :
    Prop where
  ranks : ranks' ⊆ ranks
  operands : ∀ o ∈ os', o ∈ os ∨ IsWritten o
  value : ∃ o ∈ os', IsWritten o

theorem Spliced.join (h : Spliced ranks os ranks' os') (rank : Rank) (o : Text) :
    Spliced (rank :: ranks) (o :: os) (rank :: ranks') (o :: os') := by
  obtain ⟨v, member, written⟩ := h.value
  refine ⟨List.cons_subset_cons _ h.ranks, ?_, v, .tail _ member, written⟩
  refine List.forall_mem_cons.2 ⟨.inl (.head _), fun p member => ?_⟩
  exact (h.operands p member).imp_left (.tail _)

theorem Spliced.trans (h : Spliced ranks os ranks' os') (h' : Spliced ranks' os' ranks'' os'') :
    Spliced ranks os ranks'' os'' :=
  ⟨List.Subset.trans h'.ranks h.ranks, fun o member => (h'.operands o member).elim (h.operands o) .inr,
    h'.value⟩

/-- One of the operands, behind signs. -/
def IsSigned (os : List Text) (t : Text) : Prop :=
  ∃ s, (∀ c ∈ s, isSign c = true) ∧ ∃ o ∈ os, t = s ++ o

theorem IsSigned.mono (h : IsSigned os t) (more : os ⊆ os') : IsSigned os' t := by
  obtain ⟨s, signs, o, member, shape⟩ := h
  exact ⟨s, signs, o, more member, shape⟩

/-- The search finds an operation of the rank exactly where there is one, between two of the
operands, and putting its value in leaves operands and operators in turn. -/
theorem Alternates.search (h : Alternates ranks os t) (rank : Rank) :
    (findOperation? rank t = none ∧ rank ∉ ranks) ∨
      ∃ before operation after, findOperation? rank t = some (before, operation, after) ∧
        IsSigned os operation.left ∧ IsSigned os operation.right ∧
        ∀ x, x.isNaN = false → ∃ ranks' os', Spliced ranks os ranks' os' ∧
          Alternates ranks' os' (Reckoner.reduceSigns (before ++ plain x ++ after)) := by
  induction h with
  | @last lead o front =>
    refine .inl ⟨?_, List.not_mem_nil⟩
    have missed : findOperation? rank (lead ++ (o ++ [])) = _ := front.missed stops_nil rfl
    rw [List.append_nil, findOperation?_nil] at missed
    exact missed
  | @join lead o t ranks os front operator rest ih =>
    have stop := stops_symbol operator t
    by_cases same : operator.rank = rank
    · obtain ⟨lead', o', tail, os', rfl, rfl, front', behind'⟩ := rest.exists_front
      have following : follow? rank (operator.symbol :: (lead' ++ (o' ++ tail))) = _ :=
        follow?_symbol (front'.rightOperand? behind'.stops)
      rw [if_pos same] at following
      obtain ⟨before, s, signs, signs', found⟩ := front.found rank
      refine .inr ⟨before, _, _, found stop following, ⟨s, signs', o, .head _, rfl⟩,
        ⟨lead', front'.signs, o', .tail _ (.head _), rfl⟩,
        fun x number => ⟨_, _, ?_, behind'.splice signs number⟩⟩
      refine ⟨List.subset_cons_self _ _, List.forall_mem_cons.2 ⟨.inr ⟨x, number, rfl⟩, ?_⟩, ?_⟩
      · exact fun p member => .inl (.tail _ (.tail _ member))
      · exact ⟨_, .head _, x, number, rfl⟩
    · obtain ⟨lead', o', tail, os', shape, _, front', behind'⟩ := rest.exists_front
      have nothing : follow? rank (operator.symbol :: (lead' ++ (o' ++ tail))) = _ :=
        follow?_symbol (front'.rightOperand? behind'.stops)
      rw [if_neg same, ← shape] at nothing
      have missed := front.missed stop nothing
      rw [findOperation?_symbol same, behind_behind] at missed
      rcases ih with ⟨none, absent⟩ | ⟨before, operation, after, found, left, right, spliced⟩
      · refine .inl ⟨by rw [missed, none]; rfl, ?_⟩
        rw [List.mem_cons, not_or]
        exact ⟨fun eq => same eq.symm, absent⟩
      · rw [found] at missed
        refine .inr ⟨_, operation, after, missed, left.mono (List.subset_cons_self _ _),
          right.mono (List.subset_cons_self _ _), fun x number => ?_⟩
        obtain ⟨ranks', os', rest', alternates⟩ := spliced x number
        refine ⟨_, _, rest'.join operator.rank o, ?_⟩
        have whole := (Tail.of_reduced alternates operator).of_front front.operand front.signs
        simpa using whole

/-- A rank leaves no operator of its own, and the text as it was or a value in it. -/
theorem Alternates.solveRank (h : Alternates ranks os t)
    (solved : (Reckoner.solveRank context rank t).outcome = .ok u) :
    ∃ ranks' os', Alternates ranks' os' u ∧ rank ∉ ranks' ∧
      ((ranks' = ranks ∧ os' = os ∧ u = t) ∨ Spliced ranks os ranks' os') := by
  induction size : operandRuns false t using Nat.strongRecOn generalizing t ranks os with
  | ind n ih =>
    subst size
    rcases h.search rank with ⟨missed, absent⟩ | ⟨before, operation, after, found, _, _, spliced⟩
    · rw [solveRank_of_none missed] at solved
      cases solved
      exact ⟨ranks, os, h, absent, .inl ⟨rfl, rfl, rfl⟩⟩
    · rw [solveRank_of_some found] at solved
      obtain ⟨x, value, rest⟩ := bind_eq_ok solved
      obtain ⟨ranks', os', step, alternates⟩ := spliced x (Operation.solve_number value)
      obtain ⟨ranks'', os'', last, absent, kept⟩ :=
        ih _ (operandRuns_solved_lt found x) alternates rest rfl
      refine ⟨ranks'', os'', last, absent, .inr ?_⟩
      rcases kept with ⟨rfl, rfl, _⟩ | more
      · exact step
      · exact step.trans more

/-- The operations of a text leave a single operand with its signs: the text as it was where there
are none, and the value of the last one otherwise. -/
theorem Alternates.solveOperations (h : Alternates ranks os t)
    (solved : (Reckoner.solveOperations context t).outcome = .ok u) :
    ∃ lead o, u = lead ++ o ∧ Front lead o ∧ ((ranks = [] ∧ os = [o] ∧ u = t) ∨ IsWritten o) := by
  rw [solveOperations_outcome] at solved
  obtain ⟨t₁, powers, solved⟩ := bind_eq_ok solved
  obtain ⟨t₂, products, sums⟩ := bind_eq_ok solved
  obtain ⟨ranks₁, os₁, h₁, noPower, kept₁⟩ := h.solveRank powers
  obtain ⟨ranks₂, os₂, h₂, noProduct, kept₂⟩ := h₁.solveRank products
  obtain ⟨ranks₃, os₃, h₃, noSum, kept₃⟩ := h₂.solveRank sums
  have below {a b : List Rank} {p q : List Text} {v w : Text}
      (kept : (b = a ∧ q = p ∧ w = v) ∨ Spliced a p b q) : b ⊆ a := by
    rcases kept with ⟨rfl, _⟩ | spliced
    · exact List.Subset.refl _
    · exact spliced.ranks
  have none : ranks₃ = [] := by
    refine List.eq_nil_iff_forall_not_mem.2 fun rank member => ?_
    cases rank with
    | power => exact noPower (below kept₂ (below kept₃ member))
    | product => exact noProduct (below kept₃ member)
    | sum => exact noSum member
  subst none
  have whole : (([] : List Rank) = ranks ∧ os₃ = os ∧ u = t) ∨ Spliced ranks os [] os₃ := by
    have compose {a b c : List Rank} {p q r : List Text} {v w z : Text}
        (first : (b = a ∧ q = p ∧ w = v) ∨ Spliced a p b q)
        (second : (c = b ∧ r = q ∧ z = w) ∨ Spliced b q c r) :
        (c = a ∧ r = p ∧ z = v) ∨ Spliced a p c r := by
      rcases second with ⟨rfl, rfl, rfl⟩ | second
      · exact first
      · rcases first with ⟨rfl, rfl, rfl⟩ | first
        · exact .inr second
        · exact .inr (first.trans second)
    exact compose (compose kept₁ kept₂) kept₃
  cases h₃ with
  | @last lead o front =>
    refine ⟨lead, o, rfl, front, ?_⟩
    rcases whole with ⟨ranks, rfl, same⟩ | spliced
    · exact .inl ⟨ranks.symm, rfl, same⟩
    · obtain ⟨v, member, written⟩ := spliced.value
      exact .inr (List.mem_singleton.1 member ▸ written)

end Reckoner
