import Reckoner.Proofs.Evaluation.Groups
import Reckoner.Proofs.Evaluation.Swap.Calls
import Reckoner.Proofs.Expression.Check

set_option autoImplicit false

namespace Reckoner

variable {context : Context} {t u : Text} {c : Char} {position depth : Nat}

/-- Every parenthesis has a partner. -/
inductive Balanced : Text → Prop
  | nil : Balanced []
  | char {c : Char} {t : Text} (open' : c ≠ '(') (close : c ≠ ')') (rest : Balanced t) :
    Balanced (c :: t)
  | group {t u : Text} (inner : Balanced t) (rest : Balanced u) :
    Balanced ('(' :: (t ++ ')' :: u))

theorem Balanced.append_flat (open' : '(' ∉ t) (close : ')' ∉ t) (h : Balanced u) :
    Balanced (t ++ u) := by
  induction t with
  | nil => exact h
  | cons c t ih =>
    exact .char (fun same => open' (same ▸ .head _)) (fun same => close (same ▸ .head _))
      (ih (fun member => open' (.tail _ member)) fun member => close (.tail _ member))

/-- What leaves no parenthesis open is balanced, or it is up to where it closes one from before. -/
theorem balanced_or_closes (closed : openAtEnd position depth t = .ok 0) :
    (depth = 0 ∧ Balanced t) ∨ ∃ d u v position', depth = d + 1 ∧ t = u ++ ')' :: v ∧ Balanced u ∧
      openAtEnd position' d v = .ok 0 := by
  induction size : t.length using Nat.strongRecOn generalizing position depth t with
  | ind n ih =>
  cases t with
  | nil =>
    cases closed
    exact .inl ⟨rfl, .nil⟩
  | cons c t =>
    have less : t.length < n := by
      rw [← size]
      exact Nat.lt_succ_self _
    by_cases open' : c = '('
    · subst open'
      have inside : openAtEnd (position + 1) (depth + 1) t = .ok 0 := closed
      rcases ih _ less inside rfl with ⟨none, _⟩ | ⟨d, u, v, position', same, rfl, inner, rest⟩
      · contradiction
      · cases same
        have shorter : v.length < n := by
          rw [List.length_append, List.length_cons] at less
          omega
        rcases ih _ shorter rest rfl with ⟨none, after⟩ | ⟨d', u', v', p, more, rfl, after, last⟩
        · exact .inl ⟨none, .group inner after⟩
        · refine .inr ⟨d', '(' :: (u ++ ')' :: u'), v', p, more, ?_, .group inner after, last⟩
          simp
    · by_cases close : c = ')'
      · subst close
        cases depth with
        | zero => contradiction
        | succ depth => exact .inr ⟨depth, [], t, position + 1, rfl, rfl, .nil, closed⟩
      · rw [openAtEnd_other open' close] at closed
        rcases ih _ less closed rfl with ⟨none, rest⟩ | ⟨d, u, v, p, same, rfl, inner, rest⟩
        · exact .inl ⟨none, .char open' close rest⟩
        · exact .inr ⟨d, c :: u, v, p, same, rfl, .char open' close inner, rest⟩

theorem Balanced.closed (h : Balanced t) (position depth : Nat) :
    openAtEnd position depth t = .ok depth := by
  induction h generalizing position depth with
  | nil => rfl
  | char open' close _ ih => rw [openAtEnd_other open' close, ih]
  | @group t u _ _ ih ih' =>
    rw [openAtEnd_open, openAtEnd_append_of_ok (ih _ _), openAtEnd_close, ih']

/-- A balanced text is solved in its place. -/
theorem Balanced.flattens (h : Balanced t) (context : Context) :
    ∃ flat, Flattens context t flat := by
  induction h with
  | nil => exact ⟨_, flattens_of_flat List.not_mem_nil List.not_mem_nil⟩
  | @char c t open' close _ ih =>
    obtain ⟨flat, rest⟩ := ih
    have first : Flattens context [c] (.ok [c]) :=
      flattens_of_flat (by simpa using Ne.symm open') (by simpa using Ne.symm close)
    exact ⟨_, first.append rest⟩
  | @group t u _ _ ih ih' =>
    obtain ⟨flat, inner⟩ := ih
    obtain ⟨flat', rest⟩ := ih'
    have whole := inner.group.append rest
    rw [List.cons_append, List.append_assoc] at whole
    exact ⟨_, whole⟩

theorem Balanced.openAtEnd {d : Nat} (h : Balanced t)
    (closed : openAtEnd position depth (t ++ u) = .ok d) :
    ∃ position', Reckoner.openAtEnd position' depth u = .ok d := by
  induction h generalizing position depth u with
  | nil => exact ⟨position, closed⟩
  | char open' close _ ih =>
    rw [List.cons_append, openAtEnd_other open' close] at closed
    exact ih closed
  | @group t v _ _ ih ih' =>
    have inside : Reckoner.openAtEnd (position + 1) (depth + 1) (t ++ ')' :: (v ++ u)) = .ok d := by
      rw [← closed, List.cons_append, List.append_assoc, List.cons_append, openAtEnd_open]
    obtain ⟨position', rest⟩ := ih inside
    exact ih' rest

/-- What a balanced text begins with stays in front if it is an operator. -/
theorem Balanced.flattens_ends (h : Balanced t) (context : Context) :
    ∃ flat, Flattens context t flat ∧
      ((∀ c ∈ t.head?, isOperator c = true) → ∀ u, flat = .ok u → Ends u) := by
  cases h with
  | nil =>
    refine ⟨_, flattens_of_flat List.not_mem_nil List.not_mem_nil, ?_⟩
    rintro _ _ ⟨⟩
    exact .inl rfl
  | @char c t open' close rest =>
    obtain ⟨flat, rest⟩ := rest.flattens context
    have first : Flattens context [c] (.ok [c]) :=
      flattens_of_flat (by simpa using Ne.symm open') (by simpa using Ne.symm close)
    refine ⟨_, first.append rest, fun start u value => ?_⟩
    obtain ⟨operator, rfl⟩ := isOperator_iff.1 (start c rfl)
    obtain ⟨v, _, rfl⟩ := map_eq_ok value
    exact .inr ⟨operator, v, rfl⟩
  | group inner rest =>
    obtain ⟨flat, whole⟩ := (inner.group rest).flattens context
    refine ⟨flat, whole, fun start => ?_⟩
    have wrong := start '(' rfl
    exact absurd wrong (by decide)

theorem Place.run_append (p : Place) (t u : Text) : p.run (t ++ u) = (p.run t).run u :=
  List.foldl_append

/-- The place behind the value of a segment. -/
theorem Place.run_markValue (p : Place) (t u : Text) : p.run (t ++ markValue u) = .other := by
  unfold markValue
  rw [Place.run_append, Place.run_append]
  rfl

theorem solveSegment_marks {value : Text} (solved : (solveSegment context t).outcome = .ok value) :
    ∃ u, value = markValue u := by
  rw [solveSegment_outcome] at solved
  obtain ⟨_, _, operations⟩ := bind_eq_ok solved
  obtain ⟨u, _, same⟩ := map_eq_ok operations
  exact ⟨u, same.symm⟩

theorem getLast?_of_cons {d : Char} (other : c ≠ d) (last : (c :: t).getLast? = some d) :
    t.getLast? = some d := by
  cases t with
  | nil => exact absurd (Option.some.inj last) other
  | cons e t => exact last

/-- What a text leaves behind the beginning of a group: this many groups around are open, and the
innermost one ends at the place to which the text leads, with a value in marks if the text ends with a
group. -/
structure LeavesOpen (middle : Nat) (inner t : Text) (s : List Text × Text) : Prop where
  depth : s.1.length = middle
  place : Place.start.run s.2.reverse = (Place.start.run inner.reverse).run t
  same : t = [] → s.2 = inner
  marks : t.getLast? = some ')' → ∃ u v, s.2.reverse = u ++ markValue v

namespace LeavesOpen

variable {middle : Nat} {inner beginning v : Text} {s : List Text × Text}

theorem opened (h : LeavesOpen middle [] t s) (inner : Text) : LeavesOpen middle inner ('(' :: t) s where
  depth := h.depth
  place := h.place
  same none := absurd none (List.cons_ne_nil _ _)
  marks last := h.marks (getLast?_of_cons (by decide) last)

/-- The value of the group that is closed stands in marks. -/
theorem closed (h : LeavesOpen middle ((markValue v).reverseAux beginning) t s) (inner : Text) :
    LeavesOpen middle inner (')' :: t) s := by
  have reversed : ((markValue v).reverseAux beginning).reverse = beginning.reverse ++ markValue v := by
    rw [List.reverseAux_eq, List.reverse_append, List.reverse_reverse]
  have place := h.place
  rw [reversed, Place.run_markValue] at place
  refine ⟨h.depth, place, fun none => absurd none (List.cons_ne_nil _ _), fun last => ?_⟩
  cases t with
  | nil => exact ⟨beginning.reverse, v, by rw [h.same rfl, reversed]⟩
  | cons d t => exact h.marks last

theorem other (close : c ≠ ')') (h : LeavesOpen middle (c :: inner) t s) :
    LeavesOpen middle inner (c :: t) s := by
  have place := h.place
  rw [List.reverse_cons, Place.run_append] at place
  exact ⟨h.depth, place, fun none => absurd none (List.cons_ne_nil _ _),
    fun last => h.marks (getLast?_of_cons close last)⟩

end LeavesOpen

/-- The beginning of an expression leaves some groups open, whatever follows. -/
theorem solveGroups_front (context : Context) {middle : Nat} (outer : List Text) (inner : Text)
    (opened : openAtEnd position outer.length t = .ok middle) :
    ∃ r : Except Failure (List Text × Text), (∀ s, r = .ok s → LeavesOpen middle inner t s) ∧
      ∀ rest, (solveGroups context outer inner (t ++ rest)).outcome =
        r.bind fun s => (solveGroups context s.1 s.2 rest).outcome := by
  induction t generalizing position outer inner with
  | nil =>
    cases opened
    refine ⟨.ok (outer, inner), ?_, fun rest => rfl⟩
    rintro _ ⟨⟩
    exact ⟨rfl, rfl, fun _ => rfl, fun last => by cases last⟩
  | cons c t ih =>
    by_cases open' : c = '('
    · subst open'
      obtain ⟨r, leaves, rest⟩ := ih (inner :: outer) [] opened
      exact ⟨r, fun s value => (leaves s value).opened inner, rest⟩
    by_cases close : c = ')'
    · subst close
      cases outer with
      | nil => contradiction
      | cons beginning outer =>
        have closed : openAtEnd (position + 1) outer.length t = .ok middle := opened
        choose r leaves rest using fun value : Text => ih outer (value.reverseAux beginning) closed
        refine ⟨(solveSegment context inner.reverse).outcome.bind r, fun s value => ?_, fun u => ?_⟩
        · obtain ⟨marked, solved, after⟩ := bind_eq_ok value
          obtain ⟨v, rfl⟩ := solveSegment_marks solved
          exact (leaves _ s after).closed inner
        · rw [List.cons_append, solveGroups, if_neg (by decide), if_pos rfl]
          simp only [Traced.outcome_bind, Traced.outcome_emit, rest]
          cases (solveSegment context inner.reverse).outcome <;> rfl
    · rw [openAtEnd_other open' close] at opened
      obtain ⟨r, leaves, rest⟩ := ih outer (c :: inner) opened
      refine ⟨r, fun s value => (leaves s value).other close, fun u => ?_⟩
      rw [List.cons_append, solveGroups, if_neg open', if_neg close]
      exact rest u

/-- What the outermost group is up to the end of an expression. -/
theorem exists_balanced_front (closed : openAtEnd position depth t = .ok 0) :
    ∃ u v, t ++ [')'] = u ++ ')' :: v ∧ Balanced u ∧
      (∀ c ∈ u.head?, c ∈ t.head?) := by
  rcases balanced_or_closes closed with ⟨_, balanced⟩ | ⟨_, u, v, _, _, rfl, balanced, _⟩
  · exact ⟨t, [], rfl, balanced, fun c hc => hc⟩
  · refine ⟨u, v ++ [')'], by simp, balanced, fun c hc => ?_⟩
    cases u with
    | nil => contradiction
    | cons d u => exact hc

/-- The evaluation of both expressions fails, or both have the same value. -/
def SameValue (context : Context) (t u : Text) : Prop :=
  Matches (fun x y => x = y) (solveExpression context t).outcome (solveExpression context u).outcome

/-- A part of an expression that is solved in its place stands in a segment, between a text at the
end of which there is the same place and one that ends the part's operand; and the rest of the
expression sees the value of this segment only. -/
theorem solveExpression_around {before part after : Text}
    (closed : openAtEnd 0 0 (before ++ (part ++ after)) = .ok 0) (balanced : Balanced part)
    (context : Context) :
    ∃ r : Except Failure (Text × Text × (Text → Except Failure Float)),
      (∀ s, r = .ok s → Place.start.run s.1 = Place.start.run before ∧
        ((∀ c ∈ after.head?, c = ')' ∨ isOperator c = true) → Ends s.2.1) ∧
        (before.getLast? = some ')' → ∃ u v, s.1 = u ++ markValue v)) ∧
      ∀ t u, Flattens context t (.ok u) →
        (solveExpression context (before ++ (t ++ after))).outcome =
          r.bind fun s => (solveSegment context (s.1 ++ (u ++ s.2.1))).outcome.bind s.2.2 := by
  obtain ⟨middle, position, front, rest⟩ := openAtEnd_append closed
  obtain ⟨position', rest⟩ := balanced.openAtEnd rest
  obtain ⟨back, last, shape, inner, head⟩ := exists_balanced_front rest
  obtain ⟨r, leaves, states⟩ := solveGroups_front context [] [] front
  obtain ⟨flat, flattens, ends⟩ := inner.flattens_ends context
  refine ⟨r.bind fun s => flat.map fun back => (s.2.reverse, back, resume context s.1 last), ?_, ?_⟩
  · intro s value
    obtain ⟨state, same, value⟩ := bind_eq_ok value
    obtain ⟨u, behind, rfl⟩ := map_eq_ok value
    have open' := leaves state same
    refine ⟨open'.place, fun fits => ends (fun c hc => ?_) u behind, open'.marks⟩
    rcases fits c (head c hc) with rfl | operator
    · cases inner with
      | nil => contradiction
      | char _ close =>
        cases hc
        exact absurd rfl close
      | group => exact absurd hc (by simp)
    · exact operator
  · intro t u solved
    have whole : before ++ (t ++ after) ++ [')'] = before ++ (t ++ (back ++ ')' :: last)) := by
      rw [← shape]
      simp
    rw [solveExpression_outcome, whole, states]
    cases r with
    | error e => rfl
    | ok state =>
      simp only [Except.bind]
      rw [solved]
      simp only [Except.bind]
      rw [flattens]
      cases flat with
      | error e => rfl
      | ok v =>
        have reversed : state.2.reverse ++ (u ++ v) =
            (v.reverse ++ (u.reverse ++ state.2)).reverse := by simp
        simp only [Except.map]
        rw [reversed]
        exact solveGroups_close _ _ _

/-- A part that is not solved fails the expression around it. -/
theorem solveExpression_around_error {before part after : Text} {e : Failure}
    (closed : openAtEnd 0 0 (before ++ (part ++ after)) = .ok 0)
    (failed : Flattens context part (.error e)) :
    ∃ e', (solveExpression context (before ++ (part ++ after))).outcome = .error e' := by
  obtain ⟨middle, position, front, _⟩ := openAtEnd_append closed
  obtain ⟨r, _, states⟩ := solveGroups_front context [] [] front
  rw [solveExpression_outcome, List.append_assoc, List.append_assoc, states]
  cases r with
  | error e => exact ⟨e, rfl⟩
  | ok s =>
    refine ⟨e, ?_⟩
    simp only [Except.bind]
    rw [failed]
    rfl

theorem Place.run_snoc (p : Place) (t : Text) (c : Char) : p.run (t ++ [c]) = (p.run t).step c :=
  p.run_append t [c]

theorem Place.step_unsigned {p : Place} (unsigned : isSign c = false) (unmarked : c ≠ openMark) :
    p.step c = .operator ∨ p.step c = .start ∨ p.step c = .other := by
  unfold Place.step
  rw [unsigned, if_neg Bool.false_ne_true, if_neg unmarked]
  split
  · exact .inl rfl
  · split
    · exact .inr (.inl rfl)
    · exact .inr (.inr rfl)

theorem Place.admits_step_sign {p : Place} (sign : isSign c = true)
    (single : p = .start ∨ p = .leading ∨ p = .operator ∨ p = .other) :
    (p.step c).admits = true := by
  unfold Place.step
  rw [if_pos sign]
  rcases single with rfl | rfl | rfl | rfl <;> rfl

/-- Where an operand of an accepted expression begins, it can be exchanged: only at the start two
signs can stand in a row. -/
theorem admits_of_check {before rest : Text} (checked : (check (before ++ rest)).outcome = .ok ())
    (last : ∀ c ∈ before.getLast?, c = '(' ∨ isOperator c = true) :
    (Place.start.run before).admits = true := by
  rcases List.eq_nil_or_concat before with rfl | ⟨init, c, rfl⟩
  · rfl
  rw [List.concat_eq_append] at checked last ⊢
  rw [Place.run_snoc]
  rcases last c (by simp) with rfl | operator
  · rfl
  by_cases sign : isSign c = true
  · apply Place.admits_step_sign sign
    rcases List.eq_nil_or_concat init with rfl | ⟨init, d, rfl⟩
    · exact .inl rfl
    rw [List.concat_eq_append] at checked ⊢
    rw [Place.run_snoc]
    by_cases sign' : isSign d = true
    · rcases List.eq_nil_or_concat init with rfl | ⟨init, e, rfl⟩
      · unfold Place.step
        rw [if_pos sign']
        exact .inr (.inl rfl)
      · have shape : init.concat e ++ [d] ++ [c] ++ rest = init ++ e :: d :: c :: rest := by simp
        rw [shape] at checked
        have fits := (neighbors_of_sign checked sign').2
        rcases isSign_iff.1 sign with rfl | rfl <;> exact absurd fits (by decide)
    · have unmarked : d ≠ openMark := by
        rintro rfl
        have allowed := isCanonicalChar_of_check checked openMark (by simp)
        exact absurd allowed (by decide)
      have unsigned : isSign d = false := by simpa using sign'
      rcases Place.step_unsigned unsigned unmarked with place | place | place
      · exact .inr (.inr (.inl place))
      · exact .inl place
      · exact .inr (.inr (.inr place))
  · have binary : isBinaryOnly c = true := by simpa [isOperator, sign] using operator
    unfold Place.step
    rw [if_neg sign, if_pos binary]
    rfl

end Reckoner
