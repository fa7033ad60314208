import Reckoner.Proofs.Evaluation.FirstRank
import Reckoner.Proofs.Expression.Wrapped

set_option autoImplicit false

namespace Reckoner

open Double

/-- The expression is open up to the beginning of the last group in it, which is this far. -/
structure Encloses (outer front : Text) : Prop where
  opened : outer = [] ∨ ∃ o, outer = o ++ ['(']
  balanced : Balanced front

variable {context : Context} {outer front part back before after last t u : Text} {c : Char}
  {position depth d : Nat}

theorem Balanced.append (h : Balanced t) (h' : Balanced u) : Balanced (t ++ u) := by
  induction h with
  | nil => exact h'
  | char open' close _ ih => exact .char open' close ih
  | group inner _ _ ih =>
    rw [List.cons_append, List.append_assoc, List.cons_append]
    exact .group inner ih

/-- The beginning of an expression, up to where its last open group begins. The induction is from
the right, since the group that a parenthesis closes stands in front of it. -/
theorem exists_encloses (opened : openAtEnd position 0 t = .ok depth) :
    ∃ outer front, t = outer ++ front ∧ Encloses outer front := by
  induction size : t.length using Nat.strongRecOn generalizing t depth with
  | ind n ih =>
  subst size
  rcases List.eq_nil_or_concat t with rfl | ⟨t, c, rfl⟩
  · exact ⟨[], [], rfl, .inl rfl, .nil⟩
  rw [List.concat_eq_append] at *
  obtain ⟨middle, position', before, here⟩ := openAtEnd_append opened
  have shorter : t.length < (t ++ [c]).length := by simp
  obtain ⟨outer, front, rfl, inner⟩ := ih _ shorter before rfl
  by_cases open' : c = '('
  · subst open'
    exact ⟨outer ++ front ++ ['('], [], by simp, .inr ⟨_, rfl⟩, .nil⟩
  by_cases close : c = ')'
  · subst close
    rcases inner.opened with rfl | ⟨o, rfl⟩
    · rw [List.nil_append, inner.balanced.closed] at before
      cases before
      contradiction
    · rw [List.append_assoc, List.append_assoc] at opened
      obtain ⟨_, _, first, _⟩ := openAtEnd_append opened
      have shorter : o.length < (o ++ ['('] ++ front ++ [')']).length := by
        simp only [List.length_append, List.length_singleton]
        omega
      obtain ⟨outer', front', rfl, inner'⟩ := ih _ shorter first rfl
      refine ⟨outer', front' ++ '(' :: (front ++ ')' :: []), by simp, inner'.opened, ?_⟩
      exact inner'.balanced.append (.group inner.balanced .nil)
  · refine ⟨outer, front ++ [c], by simp, inner.opened, ?_⟩
    exact inner.balanced.append (.char open' close .nil)

/-- Up to the beginning of a group the expression leaves the groups around it open. -/
theorem Encloses.solveGroups (h : Encloses outer front) (opened : openAtEnd position 0 outer = .ok d)
    (context : Context) :
    ∃ r : Except Failure (List Text), ∀ rest,
      (Reckoner.solveGroups context [] [] (outer ++ rest)).outcome =
        r.bind fun groups => (Reckoner.solveGroups context groups [] rest).outcome := by
  rcases h.opened with rfl | ⟨o, rfl⟩
  · exact ⟨.ok [], fun rest => rfl⟩
  · obtain ⟨middle, _, first, _⟩ := openAtEnd_append opened
    obtain ⟨r, _, states⟩ := solveGroups_front context [] [] first
    refine ⟨r.map fun s => s.2 :: s.1, fun rest => ?_⟩
    rw [List.append_assoc, states]
    cases r with
    | error e => rfl
    | ok s =>
      simp only [Except.bind, Except.map]
      rw [List.singleton_append, Reckoner.solveGroups, if_pos rfl]

/-- What an expression comes to is what the group around a part of it comes to, and what the rest
makes of that. -/
theorem Encloses.solveExpression (h : Encloses outer front)
    (closed : openAtEnd 0 0 (outer ++ (front ++ (part ++ after))) = .ok 0)
    (shape : after ++ [')'] = back ++ ')' :: last) (context : Context) :
    ∃ r : Except Failure (Text → Except Failure Float), ∀ t s p b, Flattens context front s →
      Flattens context t p → Flattens context back b →
        (Reckoner.solveExpression context (outer ++ (front ++ (t ++ after)))).outcome =
          r.bind fun k => s.bind fun s => p.bind fun u => b.bind fun b =>
            (solveSegment context (s ++ (u ++ b))).outcome.bind k := by
  obtain ⟨_, _, opened, _⟩ := openAtEnd_append closed
  obtain ⟨r, states⟩ := h.solveGroups opened context
  refine ⟨r.map fun groups => resume context groups last, fun t s p b flat flat' flat'' => ?_⟩
  have whole : outer ++ (front ++ (t ++ after)) ++ [')'] =
      outer ++ (front ++ (t ++ (back ++ ')' :: last))) := by
    rw [← shape]
    simp
  rw [solveExpression_outcome, whole, states]
  cases r with
  | error e => rfl
  | ok groups =>
    simp only [Except.bind, Except.map]
    rw [flat]
    cases s with
    | error e => rfl
    | ok s =>
      simp only [Except.bind]
      rw [flat']
      cases p with
      | error e => rfl
      | ok u =>
        simp only [Except.bind]
        rw [flat'']
        cases b with
        | error e => rfl
        | ok b =>
          have reversed : s ++ (u ++ b) = (b.reverse ++ (u.reverse ++ (s.reverse ++ []))).reverse := by
            simp
          simp only [Except.bind]
          rw [reversed]
          exact solveGroups_close _ _ _

theorem Balanced.last_ne_open (h : Balanced t) : ∀ c ∈ t.getLast?, c ≠ '(' := by
  induction h with
  | nil => exact nofun
  | @char c t open' _ _ ih =>
    intro d last
    rw [List.getLast?_cons] at last
    cases behind : t.getLast? with
    | none =>
      rw [behind] at last
      cases last
      exact open'
    | some e =>
      rw [behind] at last
      cases last
      exact ih e behind
  | @group t u _ _ _ ih =>
    intro d last
    rw [← List.cons_append, List.getLast?_append, List.getLast?_cons] at last
    cases behind : u.getLast? with
    | none =>
      rw [behind] at last
      cases last
      decide
    | some e =>
      rw [behind] at last
      cases last
      exact ih e behind

/-- No operator of the first rank stands in front of the operand that follows. -/
def PowersApart (t : Text) : Prop :=
  ∀ s (operator : Operator) lead, t = s ++ operator.symbol :: lead → IsLead lead →
    operator.rank ≠ .power

theorem PowersApart.of_append (h : PowersApart (t ++ u)) : PowersApart u := by
  intro s operator lead shape sign
  exact h (t ++ s) operator lead (by rw [shape, List.append_assoc]) sign

theorem Balanced.of_snoc (h : Balanced (t ++ [c])) (open' : c ≠ '(') (close : c ≠ ')') :
    Balanced t := by
  obtain ⟨d, position, front, rest⟩ := openAtEnd_append (h.closed 0 0)
  rw [openAtEnd_other open' close] at rest
  cases rest
  rcases balanced_or_closes front with ⟨_, balanced⟩ | ⟨_, _, _, _, none, _⟩
  · exact balanced
  · contradiction

open Slot in
/-- An operator at the end of a text stays there, and what stands in front of it is solved on its own. -/
theorem Balanced.run_snoc {s : Text} (h : Balanced (t ++ [c])) (operator : isOperator c = true)
    (chain : List.IsChain (fun a b => follows a b = true) ('(' :: (t ++ [c])))
    (flat : Flattens context (t ++ [c]) (.ok s)) : ∃ u, s = u ++ [c] ∧ Balanced t ∧
      Flattens context t (.ok u) ∧ List.IsChain (fun a b => follows a b = true) ('(' :: t) ∧
      isCanonicalChar (t.getLastD '(') = true ∧ Run 1 1 (.free 0) u (past (t.getLastD '(')) ∧
      Next 1 1 (past (t.getLastD '(')) c (past c) := by
  have open' : c ≠ '(' := by
    rintro rfl
    exact absurd operator (by decide)
  have close : c ≠ ')' := by
    rintro rfl
    exact absurd operator (by decide)
  have front := h.of_snoc open' close
  obtain ⟨flat', flattens⟩ := front.flattens context
  have last : Flattens context [c] (.ok [c]) :=
    flattens_of_flat (by simpa using Ne.symm open') (by simpa using Ne.symm close)
  obtain ⟨u, rfl, same⟩ := bind_eq_ok (flat.unique (flattens.append last)).symm
  cases same
  rw [← List.cons_append] at chain
  have next : follows (t.getLastD '(') c = true :=
    (List.isChain_append.1 chain).2.2 _ (by simp [List.getLast?_cons]) c rfl
  obtain ⟨run, spelled⟩ := front.run chain.left_of_append (by decide) flattens
  exact ⟨u, rfl, front, flattens, chain.left_of_append, spelled, run,
    next_of_follows spelled next open' close⟩

open Slot in
/-- In front of an operand there is a sign at most, or a segment and an operator. -/
theorem Balanced.fore {s : Text} (h : Balanced front)
    (chain : List.IsChain (fun a b => follows a b = true) ('(' :: front))
    (operators : ∀ c ∈ front.getLast?, isOperator c = true) (apart : PowersApart front)
    (flat : Flattens context front (.ok s)) : Fore 1 1 .power s := by
  rcases List.eq_nil_or_concat front with rfl | ⟨t, c, rfl⟩
  · cases flat.unique (flattens_of_flat List.not_mem_nil List.not_mem_nil)
    exact .lead isLead_nil
  rw [List.concat_eq_append] at *
  obtain ⟨o, rfl⟩ := isOperator_iff.1 (operators c List.getLast?_concat)
  obtain ⟨u, rfl, inner, flat, chain, spelled, run, next⟩ :=
    h.run_snoc (isOperator_iff.2 ⟨o, rfl⟩) chain flat
  have behind {closed : Bool} (place : past (t.getLastD '(') = .ended closed) :
      Fore 1 1 .power (u ++ [o.symbol]) := by
    rw [place] at run
    exact .joint ⟨closed, run⟩ (apart t o [] rfl isLead_nil) isLead_nil fun _ => rfl
  by_cases sign : isSign o.symbol = true
  · rcases past_cases spelled with ⟨closed, place⟩ | ⟨_, place⟩ | ⟨binary, place⟩
    · exact behind place
    · -- A sign has no sign in front of it.
      rcases next.of_sign sign with ⟨n, same, _, room⟩ | ⟨n, same, _⟩ | ⟨_, same, _⟩ <;>
        rw [place] at same <;> cases same
      contradiction
    · -- The sign is that of the operand; in front of it there is an operator, or nothing.
      have lead := isLead_of_isSign sign
      rcases List.eq_nil_or_concat t with rfl | ⟨t, d, rfl⟩
      · cases flat.unique (flattens_of_flat List.not_mem_nil List.not_mem_nil)
        exact .lead lead
      rw [List.concat_eq_append] at *
      have last : (t ++ [d]).getLastD '(' = d := by simp
      rw [last] at binary
      have binary : isBinaryOnly d = true :=
        binary.resolve_right (inner.last_ne_open d List.getLast?_concat)
      obtain ⟨o', _, rfl⟩ := exists_operator_of_isBinaryOnly binary
      obtain ⟨v, rfl, _, _, _, _, run, next⟩ :=
        inner.run_snoc (isOperator_iff.2 ⟨o', rfl⟩) chain flat
      obtain ⟨closed, place⟩ := (next.of_binary binary).1
      rw [place] at run
      have fore : Fore 1 1 .power (v ++ o'.symbol :: [o.symbol]) := by
        refine .joint ⟨closed, run⟩ (apart t o' [o.symbol] (List.append_assoc ..) lead) lead
          fun sum => ?_
        cases o' <;> first | exact absurd sum (by decide) | exact absurd binary (by decide)
      rw [List.append_assoc]
      exact fore
  · have binary : isBinaryOnly o.symbol = true := by
      cases o <;> first | rfl | exact absurd rfl sign
    obtain ⟨_, place⟩ := (next.of_binary binary).1
    exact behind place

variable {operation : Operation}

/-- The group in which a part of an expression stands. -/
def IsGroupAround (before part t group : Text) : Prop :=
  ∃ outer front after back last, before = outer ++ front ∧ t = before ++ (part ++ after) ∧
    after ++ [')'] = back ++ ')' :: last ∧ group = front ++ (part ++ back) ∧
    Encloses outer front ∧ Balanced back

/-- A part that stands in no parentheses has all that surrounds it in its group. -/
theorem IsGroupAround.eq_whole {group : Text}
    (h : IsGroupAround before part (before ++ (part ++ after)) group) (outside : '(' ∉ before)
    (outside' : ')' ∉ after) : group = before ++ (part ++ after) := by
  obtain ⟨outer, front, after', back, last, rfl, whole, shape, rfl, encloses, _⟩ := h
  rcases encloses.opened with rfl | ⟨o, rfl⟩
  · rw [List.append_cancel_left (List.append_cancel_left whole)] at outside'
    rw [whole, List.nil_append]
    rcases List.append_eq_append_iff.1 shape with ⟨t, rfl, ending⟩ | ⟨t, rfl, ending⟩
    · cases t with
      | nil => rw [List.append_nil]
      | cons c t => cases t <;> cases ending
    · cases t with
      | nil => rw [List.append_nil]
      | cons c t =>
        cases ending
        exact absurd (List.mem_append_right back (.head _)) outside'
  · exact absurd (by simp) outside

/-- There are too many signs in the group around a part of an expression, once its calls are solved. -/
def Crowded (context : Context) (before part t : Text) : Prop :=
  ∃ group s w, IsGroupAround before part t group ∧ Flattens context group (.ok s) ∧
    (solveCalls context [] s).outcome = .ok w ∧ Oversigned w

/-- The operation as a segment of its own. -/
theorem IsFirst.solveSegment (first : IsFirst context operation) :
    (Reckoner.solveSegment context operation.text).outcome =
      ((operation.solve context).mapError Failure.fault).map fun x => markValue (plain x) := by
  have found := first.findOperation? stops_nil
  rw [List.append_nil] at found
  rw [solveSegment_outcome, solveCalls_of_letterless first.letterless]
  change ((Reckoner.solveOperations context operation.text).outcome.mapError Failure.fault).map markValue = _
  rw [solveOperations_of_found found]
  cases value : operation.solve context with
  | error e => rfl
  | ok x =>
    have number := Operation.solve_number value
    change ((Reckoner.solveOperations context (reduceSigns _)).outcome.mapError _).map markValue = _
    rw [List.append_nil, List.nil_append, reduceSigns_plain number, solveOperations_plain number]
    rfl

/-- The operation as a whole expression. -/
theorem IsFirst.solveExpression (first : IsFirst context operation)
    (flat : Flattens context part (.ok operation.text)) :
    Matches Alike (Reckoner.solveExpression context part).outcome (operation.solve context) := by
  rw [flat.solveExpression]
  change Matches _ ((Reckoner.solveSegment context operation.text).outcome.bind _) _
  rw [first.solveSegment]
  cases value : operation.solve context with
  | error e => exact .error _ _
  | ok x =>
    have number := Operation.solve_number value
    have resolved := ((denotes_markValue_plain context number).resolve isLead_nil).1
    change Matches _ ((resolveOperand context (markValue (plain x))).mapError _) _
    rw [List.nil_append] at resolved
    rw [resolved]
    exact alike_written number

/-- The characters of a group in an accepted expression go together, with the parentheses. -/
theorem Encloses.isChain {group : Text} (h : Encloses outer front)
    (chain : List.IsChain (fun a b => follows a b = true) ('(' :: (outer ++ (group ++ ')' :: last)))) :
    List.IsChain (fun a b => follows a b = true) ('(' :: group ++ ')' :: last) := by
  rcases h.opened with rfl | ⟨o, rfl⟩
  · exact chain
  · have text : '(' :: (o ++ ['('] ++ (group ++ ')' :: last)) =
        '(' :: o ++ ('(' :: group ++ ')' :: last) := by simp
    rw [text] at chain
    exact chain.right_of_append

/-- The group around a part of an accepted expression: what stands in front of the part in it, and
behind it. -/
theorem exists_surrounding (accepted : Accepted (before ++ (part ++ after)))
    (balanced : Balanced part) : ∃ outer front back last, before = outer ++ front ∧
      after ++ [')'] = back ++ ')' :: last ∧ Encloses outer front ∧ Balanced back ∧
      (∀ c ∈ back.head?, c ∈ after.head?) ∧
      List.IsChain (fun a b => follows a b = true) ('(' :: (front ++ (part ++ back)) ++ ')' :: last) := by
  obtain ⟨depth, _, opened, rest⟩ := openAtEnd_append (openAtEnd_of_check accepted.checked)
  obtain ⟨_, rest⟩ := balanced.openAtEnd rest
  obtain ⟨back, last, shape, behind, head⟩ := exists_balanced_front rest
  obtain ⟨outer, front, rfl, encloses⟩ := exists_encloses opened
  refine ⟨outer, front, back, last, rfl, shape, encloses, behind, head, encloses.isChain ?_⟩
  have whole : outer ++ front ++ (part ++ after) ++ [')'] =
      outer ++ (front ++ (part ++ back) ++ ')' :: last) := by
    rw [List.append_assoc, List.append_assoc, List.append_assoc, List.append_assoc, shape]
    simp
  rw [← whole]
  exact accepted.isChain

/-- An operation of the first rank can stand in parentheses: where no operator of this rank stands
in front of it, nor too many signs in the group around it. -/
theorem IsFirst.sameValue (first : IsFirst context operation)
    (flat : Flattens context part (.ok operation.text))
    (accepted : Accepted (before ++ (part ++ after))) (balanced : Balanced part)
    (delimits : Delimits before after) (apart : PowersApart before)
    (single : ¬ Crowded context before part (before ++ (part ++ after))) :
    SameValue context (before ++ (part ++ after)) (before ++ ('(' :: (part ++ [')']) ++ after)) := by
  have closed := openAtEnd_of_check accepted.checked
  obtain ⟨outer, front, back, last, rfl, shape, encloses, behind, head, chain⟩ :=
    exists_surrounding accepted balanced
  have around : IsGroupAround (outer ++ front) part _ _ :=
    ⟨outer, front, after, back, last, rfl, rfl, shape, rfl, encloses, behind⟩
  have operators : ∀ c ∈ front.getLast?, isOperator c = true := by
    intro c final
    refine (delimits.before c ?_).resolve_left (encloses.balanced.last_ne_open c final)
    rw [List.getLast?_append, final]
    rfl
  have operators' : ∀ c ∈ back.head?, isOperator c = true := fun c first =>
    (delimits.after c (head c first)).resolve_left (behind.head_ne_close c first)
  obtain ⟨s, flat'⟩ := encloses.balanced.flattens context
  obtain ⟨b, flat'', ends⟩ := behind.flattens_ends context
  rw [List.append_assoc] at closed
  obtain ⟨r, solved⟩ := encloses.solveExpression closed shape context
  have group : Flattens context ('(' :: (part ++ [')'])) _ := flat.group
  unfold SameValue
  rw [List.append_assoc, List.append_assoc, solved _ _ _ _ flat' flat flat'',
    solved _ _ _ _ flat' group flat'']
  refine (matches_refl r).bind ?_
  rintro k _ rfl
  cases s with
  | error e => exact .error e e
  | ok s =>
    simp only [Except.bind, first.solveSegment]
    cases b with
    | error e => cases operation.solve context <;> exact .error _ _
    | ok b =>
      have fore := encloses.balanced.fore chain.left_of_append.left_of_append operators
        apart.of_append flat'
      have flattens : Flattens context (front ++ (part ++ back)) (.ok (s ++ (operation.text ++ b))) :=
        flat'.append (flat.append flat'')
      obtain ⟨run, spelled⟩ := (encloses.balanced.append (balanced.append behind)).run
        chain.left_of_append (by decide) flattens
      obtain ⟨closed, place⟩ := Slot.ended_of_follows spelled
        ((List.isChain_append.1 chain).2.2 _ (by simp [List.getLast?_cons]) ')' rfl)
      rw [place] at run
      have segments := first.solveSegment_around fore (ends operators' b rfl) ⟨closed, run⟩
        fun w calls crowded => single ⟨_, _, w, around, flattens, calls, crowded⟩
      cases value : operation.solve context with
      | error e =>
        rw [value] at segments
        rcases segments.cases with ⟨_, _, _, wrong, _⟩ | ⟨e', _, failed, _⟩
        · contradiction
        · simp only
          rw [failed]
          exact .error _ _
      | ok x =>
        rw [value] at segments
        exact segments.bind fun a b same => same ▸ matches_refl _

end Reckoner
