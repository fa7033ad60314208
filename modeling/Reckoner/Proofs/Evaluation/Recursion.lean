import Reckoner.Proofs.Evaluation.Nesting

set_option autoImplicit false

/- The loop over the groups of an expression. It takes the first closing parenthesis and the last
opening one before it, puts the value of what is between them in their place, and goes on while the
text is enclosed by parentheses. On well nested texts this is the recursion on the tree. -/
namespace Reckoner

variable {context : Context} {t u : Text} {position depth d : Nat} {kind : Char → Prop}

/-- What is true of the characters of a segment and of numbers is true of its value. -/
theorem forall_mem_reduceSigns (numbers : ∀ c, isSign c = true ∨ isOperandChar c = true → kind c)
    (all : ∀ c ∈ t, kind c) : ∀ c ∈ reduceSigns t, kind c := fun c member =>
  (mem_reduceSigns member).elim (all c) fun sign => numbers c (.inl sign)

theorem forall_mem_solveCalls (numbers : ∀ c, isSign c = true ∨ isOperandChar c = true → kind c)
    {done rest : Text} (before : ∀ c ∈ done, kind c) (all : ∀ c ∈ rest, kind c)
    (solved : (solveCalls context done rest).outcome = .ok u) : ∀ c ∈ u, kind c := by
  have both {v w : Text} (first : ∀ c ∈ v, kind c) (second : ∀ c ∈ w, kind c) :
      ∀ c ∈ v ++ w, kind c := fun c member =>
    (List.mem_append.1 member).elim (first c) (second c)
  induction rest using calls_induction generalizing done with
  | letterless t bare =>
    rw [solveCalls_of_letterless bare] at solved
    cases solved
    exact both before all
  | named p name t bare nonempty letters stop missed ih =>
    rw [solveCalls_of_name bare nonempty letters stop missed] at solved
    split at solved
    · contradiction
    · obtain ⟨front, rest⟩ := List.forall_mem_append.1 all
      obtain ⟨written, rest⟩ := List.forall_mem_append.1 rest
      exact ih (both (both before front) written) rest solved
  | called p name t argument tail bare nonempty letters stop found ih ihInfinite =>
    rw [solveCalls_of_call bare nonempty letters stop found] at solved
    rw [argument?_eq_append found] at all
    obtain ⟨front, rest⟩ := List.forall_mem_append.1 all
    obtain ⟨_, rest⟩ := List.forall_mem_append.1 rest
    obtain ⟨_, rest⟩ := List.forall_mem_append.1 rest
    obtain ⟨x, _, solved⟩ := bind_eq_ok solved
    split at solved
    · refine ihInfinite (both (both before front) fun c member => ?_) (both (fun c member => ?_) rest)
        solved
      · revert member
        cases Double.isNegative x with
        | false => exact nofun
        | true =>
          intro member
          rw [List.mem_singleton.1 member]
          exact numbers '-' (.inl rfl)
      · have letters : ∀ c ∈ Double.infinityName, isOperandChar c = true := by decide
        exact numbers c (.inr (letters c member))
    · exact ih (both (both before front) fun c member => numbers c (mem_plain member)) rest solved

theorem forall_mem_solveRank (numbers : ∀ c, isSign c = true ∨ isOperandChar c = true → kind c)
    {rank : Rank} (all : ∀ c ∈ t, kind c)
    (solved : (solveRank context rank t).outcome = .ok u) : ∀ c ∈ u, kind c := by
  fun_induction solveRank context rank t with
  | case1 =>
    cases solved
    exact all
  | case2 t before operation after found ih =>
    rw [Traced.outcome_bind] at solved
    obtain ⟨x, _, solved⟩ := bind_eq_ok solved
    refine ih x (forall_mem_reduceSigns numbers fun c member => ?_) solved
    rw [(findOperation?_operands found).1] at all
    rcases List.mem_append.1 member with member | last
    · rcases List.mem_append.1 member with first | value
      · exact all c (List.mem_append_left _ first)
      · exact numbers c (mem_plain value)
    · exact all c (by simp [last])

theorem forall_mem_solveOperations
    (numbers : ∀ c, isSign c = true ∨ isOperandChar c = true → kind c) (all : ∀ c ∈ t, kind c)
    (solved : (solveOperations context t).outcome = .ok u) : ∀ c ∈ u, kind c := by
  unfold solveOperations at solved
  generalize Rank.all = ranks at solved
  induction ranks generalizing t with
  | nil =>
    cases solved
    exact all
  | cons rank ranks ih =>
    rw [List.foldlM_cons, Traced.outcome_bind] at solved
    obtain ⟨v, first, rest⟩ := bind_eq_ok solved
    exact ih (forall_mem_solveRank numbers all first) rest

/-- The value of a segment has no parentheses, since the segment has none. -/
theorem solveSegment_flat (open' : '(' ∉ t) (close : ')' ∉ t)
    (solved : (solveSegment context t).outcome = .ok u) : '(' ∉ u ∧ ')' ∉ u := by
  have numbers (c : Char) (h : isSign c = true ∨ isOperandChar c = true) : c ≠ '(' ∧ c ≠ ')' := by
    constructor <;> rintro rfl <;> exact absurd h (by decide)
  have all : ∀ c ∈ t, c ≠ '(' ∧ c ≠ ')' := fun c member =>
    ⟨fun same => open' (same ▸ member), fun same => close (same ▸ member)⟩
  rw [solveSegment_outcome] at solved
  obtain ⟨v, calls, solved⟩ := bind_eq_ok solved
  obtain ⟨w, operations, rfl⟩ := map_eq_ok solved
  have operations : (solveOperations context v).outcome = .ok w := by
    cases shape : (solveOperations context v).outcome with
    | error e => rw [shape] at operations; cases operations
    | ok w' => rw [shape] at operations; cases operations; rfl
  have none : ∀ c ∈ ([] : Text), c ≠ '(' ∧ c ≠ ')' := fun c member => absurd member List.not_mem_nil
  have before := forall_mem_solveCalls numbers none all calls
  have after := forall_mem_solveOperations numbers before operations
  have value : ∀ c ∈ markValue w, c ≠ '(' ∧ c ≠ ')' := by
    intro c member
    unfold markValue at member
    rcases List.mem_append.1 member with member | last
    · rcases List.mem_cons.1 member with rfl | member
      · decide
      · refine forall_mem_reduceSigns numbers (fun c member => ?_) c member
        exact after c (List.mem_filter.1 member).1
    · rw [List.mem_singleton.1 last]
      decide
  exact ⟨fun member => (value _ member).1 rfl, fun member => (value _ member).2 rfl⟩

def IsEnclosed (t : Text) : Prop := t.head? = some '(' ∧ t.getLast? = some ')'

/-- What the loop comes to from a text on. The group that is solved ends with the first closing
parenthesis and begins with the last opening one before it. -/
inductive LoopsTo (context : Context) : Text → Traced Failure Text → Prop
  | done {t : Text} (bare : ¬ IsEnclosed t) : LoopsTo context t (pure t)
  | step {before inside rest : Text} {next : Text → Traced Failure Text}
    (enclosed : IsEnclosed (before ++ '(' :: (inside ++ ')' :: rest)))
    (front : ')' ∉ before) (open' : '(' ∉ inside) (close : ')' ∉ inside)
    (loops : ∀ value, (solveSegment context inside).outcome = .ok value →
      LoopsTo context (before ++ (value ++ rest)) (next value)) :
    LoopsTo context (before ++ '(' :: (inside ++ ')' :: rest)) do
      Traced.emit (.groupFound (before ++ '(' :: (inside ++ ')' :: rest)))
      let value ← solveSegment context inside
      next value

theorem enclose_eq_append (groups : List Text) (t : Text) :
    enclose groups t = enclose groups [] ++ t := by
  induction groups generalizing t with
  | nil => rfl
  | cons beginning groups ih =>
    have step (u : Text) : enclose (beginning :: groups) u =
        enclose groups ('(' :: beginning.reverseAux u) := rfl
    rw [step, step, ih, ih ('(' :: _), List.reverseAux_eq, List.reverseAux_eq]
    simp

theorem enclose_cons (inner : Text) (outer : List Text) (t : Text) :
    enclose (inner :: outer) t = enclose outer [] ++ '(' :: (inner.reverse ++ t) := by
  have step : enclose (inner :: outer) t = enclose outer ('(' :: inner.reverseAux t) := rfl
  rw [step, enclose_eq_append, List.reverseAux_eq]

theorem close_not_mem_enclose {groups : List Text} (flat : ∀ b ∈ groups, ')' ∉ b) :
    ')' ∉ enclose groups [] := by
  induction groups with
  | nil => exact List.not_mem_nil
  | cons beginning groups ih =>
    have first := flat beginning (.head _)
    have rest := ih fun b member => flat b (.tail _ member)
    rw [enclose_cons, List.append_nil]
    simp [first, rest]

theorem head?_enclose (inner : Text) (outer : List Text) (t : Text) :
    (enclose (inner :: outer) t).head? = some '(' := by
  induction outer generalizing inner t with
  | nil => rfl
  | cons beginning outer ih => exact ih beginning _

/-- The pass over an expression is the loop: the open groups are the text before the first closing
parenthesis, cut where they open. -/
theorem loopsTo_solveGroups (outer : List Text) (inner rest : Text)
    (flat : ∀ b ∈ inner :: outer, '(' ∉ b ∧ ')' ∉ b) (last : ∀ c ∈ rest.getLast?, c = ')') :
    LoopsTo context (enclose (inner :: outer) rest) (solveGroups context outer inner rest) := by
  induction rest generalizing outer inner with
  | nil =>
    refine .done fun enclosed => ?_
    have none : ')' ∉ enclose (inner :: outer) [] :=
      close_not_mem_enclose fun b member => (flat b member).2
    exact none (List.mem_of_getLast? enclosed.2)
  | cons c r ih =>
    have later : ∀ d ∈ r.getLast?, d = ')' := fun d member => last d (by
      rw [List.getLast?_cons, Option.mem_def.1 member]
      rfl)
    by_cases open' : c = '('
    · subst open'
      rw [solveGroups, if_pos rfl]
      exact ih (inner :: outer) [] (List.forall_mem_cons.2 ⟨by simp, flat⟩) later
    · by_cases close : c = ')'
      · subst close
        have here := flat inner (.head _)
        have ends : (enclose (inner :: outer) (')' :: r)).getLast? = some ')' := by
          obtain ⟨d, final⟩ : ∃ d, (')' :: r).getLast? = some d := by simp [List.getLast?_cons]
          rw [enclose_eq_append, List.getLast?_append, final, last d final]
          rfl
        have enclosed : IsEnclosed (enclose (inner :: outer) (')' :: r)) :=
          ⟨head?_enclose inner outer _, ends⟩
        rw [solveGroups, if_neg (by decide), if_pos rfl]
        rw [enclose_cons] at enclosed ⊢
        refine .step enclosed (close_not_mem_enclose fun b member => (flat b (.tail _ member)).2)
          (by simpa using here.1) (by simpa using here.2) fun value solved => ?_
        cases outer with
        | nil =>
          obtain ⟨u, rfl⟩ := solveSegment_marks solved
          exact .done fun enclosed => absurd enclosed.1 (by simp [enclose, markValue, openMark])
        | cons beginning outer =>
          obtain ⟨open', close⟩ := solveSegment_flat (by simpa using here.1)
            (by simpa using here.2) solved
          have first := flat beginning (.tail _ (.head _))
          have rest := ih outer (value.reverseAux beginning) (List.forall_mem_cons.2
            ⟨by simp [List.reverseAux_eq, open', close, first],
              fun b member => flat b (.tail _ (.tail _ member))⟩) later
          rw [enclose_cons] at rest ⊢
          simpa [List.reverseAux_eq] using rest
      · rw [solveGroups, if_neg open', if_neg close]
        have passed : enclose (inner :: outer) (c :: r) = enclose ((c :: inner) :: outer) r := rfl
        rw [passed]
        refine ih outer (c :: inner) (List.forall_mem_cons.2 ⟨?_, fun b member =>
          flat b (.tail _ member)⟩) later
        have here := flat inner (.head _)
        simp [here, Ne.symm open', Ne.symm close]

/-- Whether a text has as many opening parentheses as closing ones, and none of its beginnings has
more closing ones. -/
structure WellNested (t : Text) : Prop where
  equal : t.count '(' = t.count ')'
  beginnings : ∀ u, u <+: t → u.count ')' ≤ u.count '('

theorem openAtEnd_of_counts (beginnings : ∀ u, u <+: t → u.count ')' ≤ depth + u.count '(') :
    ∃ d, openAtEnd position depth t = .ok d ∧ d + t.count ')' = depth + t.count '(' := by
  induction t generalizing position depth with
  | nil => exact ⟨depth, rfl, rfl⟩
  | cons c t ih =>
    have later (u : Text) (first : u <+: t) := beginnings (c :: u) ((List.prefix_cons_inj c).2 first)
    by_cases open' : c = '('
    · subst open'
      obtain ⟨d, closed, total⟩ := @ih (position + 1) (depth + 1) fun u first => by
        have bound := later u first
        simp only [List.count_cons_self, List.count_cons_of_ne (show '(' ≠ ')' by decide)] at bound
        omega
      refine ⟨d, closed, ?_⟩
      simp only [List.count_cons_self, List.count_cons_of_ne (show '(' ≠ ')' by decide)]
      omega
    · by_cases close : c = ')'
      · subst close
        cases depth with
        | zero =>
          have bound := beginnings [')'] ⟨t, rfl⟩
          simp at bound
        | succ depth =>
          obtain ⟨d, closed, total⟩ := @ih (position + 1) depth fun u first => by
            have bound := later u first
            simp only [List.count_cons_self,
              List.count_cons_of_ne (show ')' ≠ '(' by decide)] at bound
            omega
          refine ⟨d, closed, ?_⟩
          simp only [List.count_cons_self, List.count_cons_of_ne (show ')' ≠ '(' by decide)]
          omega
      · obtain ⟨d, closed, total⟩ := @ih (position + 1) depth fun u first => by
          have bound := later u first
          rwa [List.count_cons_of_ne open', List.count_cons_of_ne close] at bound
        rw [openAtEnd_other open' close, List.count_cons_of_ne open', List.count_cons_of_ne close]
        exact ⟨d, closed, total⟩

/-- How many parentheses are open at the end is the surplus of opening ones. -/
theorem count_of_openAtEnd (closed : openAtEnd position depth t = .ok d) :
    d + t.count ')' = depth + t.count '(' := by
  induction t generalizing position depth with
  | nil =>
    cases closed
    rfl
  | cons c t ih =>
    by_cases open' : c = '('
    · subst open'
      have total := ih closed
      simp only [List.count_cons_self, List.count_cons_of_ne (show '(' ≠ ')' by decide)]
      omega
    · by_cases close : c = ')'
      · subst close
        cases depth with
        | zero => contradiction
        | succ depth =>
          have total := ih closed
          simp only [List.count_cons_self, List.count_cons_of_ne (show ')' ≠ '(' by decide)]
          omega
      · rw [openAtEnd_other open' close] at closed
        rw [List.count_cons_of_ne open', List.count_cons_of_ne close]
        exact ih closed

theorem wellNested_iff : WellNested t ↔ openAtEnd 0 0 t = .ok 0 := by
  constructor
  · rintro ⟨equal, beginnings⟩
    obtain ⟨d, closed, total⟩ := @openAtEnd_of_counts t 0 0 fun u first => by
      rw [Nat.zero_add]
      exact beginnings u first
    have none : d = 0 := by omega
    rw [closed, none]
  · intro closed
    refine ⟨by simpa using (count_of_openAtEnd closed).symm, ?_⟩
    rintro u ⟨v, rfl⟩
    obtain ⟨middle, _, front, _⟩ := openAtEnd_append closed
    have total := count_of_openAtEnd front
    omega

theorem WellNested.exists_nesting (h : WellNested t) : ∃ tree : Nesting, tree.text = t := by
  rcases balanced_or_closes (wellNested_iff.1 h) with ⟨_, balanced⟩ | ⟨_, _, _, _, none, _⟩
  · exact balanced.exists_nesting
  · contradiction

/-- What it is for the evaluation of a text to be the recursion on a tree, in what it comes to, in its
events but for those that show the whole text, in that a success has solved each group once in the order
of their ends, and in that an error is that of the first group that fails. -/
structure SolvesTree (context : Context) (t : Text) (tree : Nesting) : Prop where
  loop : LoopsTo context ('(' :: (t ++ [')'])) (solveGroups context [] [] (t ++ [')']))
  outcome : (solveExpression context t).outcome = (tree.evaluate context).outcome
  events : (solveExpression context t).events.filter (!·.isGroupFound) =
    (tree.evaluate context).events
  once : ∀ x, (solveExpression context t).outcome = .ok x →
    ((solveExpression context t).events.filterMap Event.segment?).map Except.ok =
      tree.groups.map fun g => (g.flatten context).outcome
  first : ∀ e, (solveExpression context t).outcome = .error e →
    (∃ before g after, tree.groups = before ++ g :: after ∧
      Nesting.FirstFailure context e before g) ∨
    ∃ u, (tree.solve context).outcome = .ok u ∧
      (resolveOperand context u).mapError Failure.fault = .error e
  shown : ∀ x, (solveExpression context t).outcome = .ok x →
    (solveExpression context t).events.countP Event.isGroupFound = t.count '(' + 1

theorem countP_solveExpression (t : Text) :
    (solveExpression context t).events.countP Event.isGroupFound =
      ((solveExpression context t).events.filterMap Event.segment?).length := by
  have started : Event.segment? .evaluationStarted = none := rfl
  have finished (x : Float) : Event.segment? (.evaluated x) = none := rfl
  have quiet (x : Float) : Event.isGroupFound (.evaluated x) = false := rfl
  rw [solveExpression, Traced.events_bind (a := ()) rfl, List.countP_append,
    List.filterMap_append, List.length_append]
  congr 1
  cases solved : (solveGroups context [] [] (t ++ [')'])).outcome with
  | error e => rw [Traced.events_bind_error solved, countP_groupFound]
  | ok u =>
    rw [Traced.events_bind solved, List.countP_append, List.filterMap_append, List.length_append,
      countP_groupFound]
    congr 1
    cases value : (resolveOperand context u).mapError Failure.fault with
    | error e => rfl
    | ok x => rfl

theorem filterMap_segment? (events : List Event) :
    (events.filter (!·.isGroupFound)).filterMap Event.segment? = events.filterMap Event.segment? := by
  rw [List.filterMap_filter]
  congr 1
  funext e
  cases e <;> rfl

theorem solvesTree_text (tree : Nesting) : SolvesTree context tree.text tree := by
  have same : (solveExpression context tree.text).filter _ = _ := solveExpression_text tree
  rw [tree.filter_evaluate] at same
  have outcome := congrArg Traced.outcome same
  have events := congrArg Traced.events same
  have solved (x : Float) (value : (solveExpression context tree.text).outcome = .ok x) :
      ∃ u, (tree.solve context).outcome = .ok u := by
    rw [show (solveExpression context tree.text).outcome = _ from outcome,
      tree.outcome_evaluate] at value
    obtain ⟨u, solved, _⟩ := bind_eq_ok value
    exact ⟨u, solved⟩
  have once (x : Float) (value : (solveExpression context tree.text).outcome = .ok x) :
      ((solveExpression context tree.text).events.filterMap Event.segment?).map Except.ok =
        tree.groups.map fun g => (g.flatten context).outcome := by
    obtain ⟨u, solved⟩ := solved x value
    rw [← filterMap_segment?, show List.filter _ _ = _ from events, tree.segments_evaluate solved,
      tree.segments_solve solved]
  refine ⟨loopsTo_solveGroups [] [] (tree.text ++ [')']) (by simp) (by simp), outcome, events, once,
    fun e failed => ?_, fun x value => ?_⟩
  · rw [show (solveExpression context tree.text).outcome = _ from outcome,
      tree.outcome_evaluate] at failed
    rcases bind_eq_error failed with solved | ⟨u, solved, resolved⟩
    · exact .inl (Nesting.exists_failure_groups solved)
    · exact .inr ⟨u, solved, resolved⟩
  · have length := congrArg List.length (once x value)
    rw [List.length_map, List.length_map, Nesting.groups, List.length_append,
      tree.length_inside] at length
    rw [countP_solveExpression, length]
    rfl

/-- The evaluation of a well nested text is the recursion on its tree; and what the check accepts is
well nested. -/
theorem solveExpression_recursion :
    (∀ t, (check t).outcome = .ok () → WellNested t) ∧
      ∀ (context : Context) (t : Text), WellNested t → ∃ tree : Nesting, tree.text = t ∧
        (∀ other : Nesting, other.text = t → other = tree) ∧ SolvesTree context t tree := by
  refine ⟨fun t checked => wellNested_iff.2 (openAtEnd_of_check checked), fun context t nested => ?_⟩
  obtain ⟨tree, rfl⟩ := nested.exists_nesting
  exact ⟨tree, rfl, fun other same => Nesting.text_injective same, solvesTree_text tree⟩

theorem wellNested_sample : WellNested ['(', '1', ')', '-', '(', '(', 'x', ')', '/', '0', ')'] := by
  rw [wellNested_iff]
  decide

/-- Of the groups in this text the second one is solved before the third, in which it is. -/
theorem solveExpression_recursion_sample :
    ∃ tree : Nesting, tree.text = ['(', '1', ')', '-', '(', '(', 'x', ')', '/', '0', ')'] ∧
      (∀ other : Nesting,
        other.text = ['(', '1', ')', '-', '(', '(', 'x', ')', '/', '0', ')'] → other = tree) ∧
      SolvesTree ⟨[(['x'], .number 2)], .degrees⟩
        ['(', '1', ')', '-', '(', '(', 'x', ')', '/', '0', ')'] tree :=
  solveExpression_recursion.2 _ _ wellNested_sample

end Reckoner
