import Reckoner.Proofs.Evaluation.Angles
import Reckoner.Proofs.Evaluation.Loops
import Reckoner.Proofs.Evaluation.Parts
import Reckoner.Proofs.Evaluation.Sites

set_option autoImplicit false

namespace Reckoner

open Double

/-- The texts that the event tells of. -/
def Event.texts : Event → List Text
  | groupFound t | segmentFound t | callsSolved t | callSolved _ _ t => [t]
  | operationSolved _ _ _ _ _ t => [t, reduceSigns t]
  | _ => []

def Event.IsWellMarked (e : Event) : Prop := ∀ t ∈ e.texts, WellMarked t

namespace Site

variable {context : Context} {rules : Rules} {p q : Site}
  {t u v x name before after right argument tail : Text} {c : Char}
  {ahead : Ahead} {called signed : Bool} {rank : Rank} {op : Operation} {y : Float}

/-- An operand character leads into marks, or behind a name or a number. -/
theorem Step.of_operand (step : Step rules p c q) (h : isOperandChar c = true) :
    (∃ called name, q = inside called name) ∨
      ∃ ahead name, q = outside ahead name ∧ (ahead = .nothing → name ≠ []) := by
  cases step with
  | letter _ => exact .inr ⟨_, _, rfl, fun _ => by simp⟩
  | digit _ _ => exact .inr ⟨_, _, rfl, Ahead.noConfusion⟩
  | first _ | goOn _ | count _ _ => exact .inl ⟨_, _, rfl⟩
  | operator operator =>
    obtain ⟨o, rfl⟩ := isOperator_iff.1 operator
    rw [Operator.not_isOperandChar_symbol] at h
    contradiction
  | sign sign =>
    rw [not_isOperandChar_of_isSign sign] at h
    contradiction
  | enter | call _ _ | leave _ => exact absurd h (by decide)

theorem Step.of_closeMark (step : Step rules p closeMark q) :
    ∃ called name, p = inside called name ∧ q = outside (.closed called) [] := by
  cases step with
  | letter h | digit h _ | operator h | sign h | first h | goOn h | count h _ =>
    exact absurd h (by decide)
  | leave _ => exact ⟨_, _, rfl, rfl⟩

theorem Step.of_openMark (step : Step rules p openMark q) : ∃ called, q = opened called false := by
  cases step with
  | letter h | digit h _ | operator h | sign h | first h | goOn h | count h _ =>
    exact absurd h (by decide)
  | enter | call _ _ => exact ⟨_, rfl⟩

/-- Only a row of operand characters leads into marks. -/
theorem Way.of_inside (way : Way rules (outside .nothing []) t (inside called name)) :
    endsInside false t = true := by
  rcases List.eq_nil_or_concat t with rfl | ⟨u, c, rfl⟩
  · cases way
  · rw [List.concat_eq_append] at way ⊢
    obtain ⟨_, _, step⟩ := way.last
    rw [endsInside_append]
    cases step with
    | first h => exact h
    | goOn h => exact isOperandChar_of_isAlpha h
    | count h _ => exact isOperandChar_of_isArgumentChar h

/-- An opening mark stands before the place, and a sign between them if it is told of. -/
theorem Way.of_opened (way : Way rules (outside .nothing []) t (opened called signed)) :
    (signed = false ∧ t.getLast? = some openMark) ∨
      signed = true ∧ ∃ b c, t = b ++ [openMark, c] ∧ isSign c = true := by
  rcases List.eq_nil_or_concat t with rfl | ⟨u, c, rfl⟩
  · cases way
  · rw [List.concat_eq_append] at way ⊢
    obtain ⟨m, front, step⟩ := way.last
    cases step with
    | enter | call _ _ => exact .inl ⟨rfl, List.getLast?_concat⟩
    | sign h =>
      rcases List.eq_nil_or_concat u with rfl | ⟨b, d, rfl⟩
      · cases front
      · rw [List.concat_eq_append] at front ⊢
        obtain ⟨_, _, step⟩ := front.last
        obtain rfl : d = openMark := by
          cases step <;> rfl
        exact .inr ⟨rfl, b, c, by simp, h⟩

/-- No name ends at a place that stands behind an operator or a mark. -/
theorem Way.name_nil (way : Way rules (outside .nothing []) t (outside ahead name))
    (bare : endsInside false t = false) : name = [] := by
  rcases List.eq_nil_or_concat t with rfl | ⟨u, c, rfl⟩
  · cases way
    rfl
  · rw [List.concat_eq_append] at way bare
    rw [endsInside_append] at bare
    have other : isOperandChar c = false := bare
    obtain ⟨_, _, step⟩ := way.last
    cases step with
    | letter h =>
      rw [isOperandChar_of_isAlpha h] at other
      contradiction
    | digit _ _ | operator _ | leave _ => rfl

/-- A left operand that begins bare takes an opening mark and a sign that stand in front of it. -/
theorem leftOperand?_opened {operand : Text} (bare : startsWith isOperandChar t = true)
    (sign : isSign c = true) (found : leftOperand? rank t = some (operand, after)) :
    leftOperand? rank (openMark :: c :: t) = some (openMark :: c :: operand, after) := by
  have unmarked : splitOpening t = ([], t) := by
    rcases splitOpening_cases t with ⟨w, rfl⟩ | unmarked
    · contradiction
    · exact unmarked
  have unsigned : splitOne isSign t = ([], t) := by
    cases t with
    | nil => rfl
    | cons d w => exact splitOne_of_not (isSign_of_isOperandChar bare)
  have closed : closeOperand? [] t = some (operand, after) := by
    unfold leftOperand? at found
    simpa only [unsigned, ite_self, unmarked, List.append_nil] using found
  have first : splitOne isSign (openMark :: c :: t) = ([], openMark :: c :: t) := splitOne_of_not rfl
  have signed : splitOne isSign (c :: t) = ([c], t) := by simp [splitOne, sign]
  have opening : splitOpening (openMark :: c :: t) = ([openMark, c], t) := by
    rw [splitOpening_mark, signed]
  unfold leftOperand?
  simp only [first, ite_self, opening, List.nil_append]
  rw [closeOperand?_opening, closed]
  rfl

/-- An opening mark and a sign right before the left operand belong to it. -/
theorem not_lead_before_left (found : findOperation? rank t = some (before, op, after))
    (starts : startsWith isOperandChar op.left = true) (sign : isSign c = true) :
    before ≠ u ++ [openMark, c] := by
  intro shape
  obtain ⟨rest, _, here, leftmost⟩ := findOperation?_leftmost found
  obtain ⟨r, left, right⟩ := operationAt?_operands here
  have nowhere := leftmost u [openMark, c] shape (List.cons_ne_nil _ _) fun _ => rfl
  have begins : startsWith isOperandChar rest = true := by
    rw [(isOneRow_of_leftOperand? left).1]
    cases first : op.left with
    | nil =>
      rw [first] at starts
      contradiction
    | cons d l =>
      rw [first] at starts
      exact starts
  have marked : leftOperand? rank ([openMark, c] ++ rest) = _ := leftOperand?_opened begins sign left
  rw [operationAt?_of_leftOperand? left] at here
  rw [operationAt?_of_leftOperand? marked] at nowhere
  obtain ⟨_, follows, _⟩ := Option.map_eq_some_iff.1 here
  rw [follows] at nowhere
  contradiction

/-- No opening mark stands behind another one, or behind the sign there. -/
theorem not_way_opened {lead : Text} (sign : IsLead lead) :
    ¬ Way rules (opened called false) (lead ++ openMark :: u) q := by
  have opened {signed : Bool} {q' : Site} : ¬ Step rules (opened called signed) openMark q' := by
    intro step
    cases step with
    | sign h | first h => exact absurd h (by decide)
  intro way
  rcases sign with rfl | rfl | rfl
  · obtain ⟨_, step, _⟩ := way_cons.1 way
    exact opened step
  all_goals
    obtain ⟨_, step, rest⟩ := way_cons.1 way
    obtain ⟨_, next, _⟩ := way_cons.1 rest
    rcases step.of_sign rfl with ⟨_, _, same, _⟩ | ⟨_, same, rfl⟩
    · cases same
    · cases same
      exact opened next

/-- Nothing of an operand stands before the operation that is found, but for a closing mark. -/
theorem begins_before (found : findOperation? rank t = some (before, op, after))
    (front : Way Rules.solved (outside .nothing []) before p)
    (rest : Way Rules.solved p (op.left ++ u) q) : ∃ ahead, p = outside ahead [] := by
  obtain ⟨_, _, here, _⟩ := findOperation?_leftmost found
  obtain ⟨_, left, _⟩ := operationAt?_operands here
  have whole := (isOneRow_of_leftOperand? left).1
  obtain ⟨c, l, first⟩ : ∃ c l, op.left = c :: l := by
    obtain ⟨_, row, _, same, _, _, some, _⟩ := (findOperation?_operands found).2.1
    exact List.exists_cons_of_ne_nil (by rw [same]; simp [some])
  have head := left
  rw [whole, first, List.cons_append] at head
  have step := rest
  rw [first, List.cons_append] at step
  obtain ⟨_, step, _⟩ := way_cons.1 step
  have operand (h : isOperandChar c = true) : endsInside false before = false :=
    findOperation?_before found (by rw [first]; exact h)
  cases p with
  | outside ahead name =>
    suffices none : name = [] from ⟨ahead, by rw [none]⟩
    rcases leftOperand?_head head with h | rfl | sign
    · exact front.name_nil (operand h)
    · cases step with
      | enter => rfl
      | call _ called => exact called.elim
      | letter h | digit h _ | operator h => exact absurd h (by decide)
    · exact front.name_nil (not_operand_before_sign (s := []) found (by rw [first]; exact sign)
        (.inl rfl) (List.append_nil before).symm)
  | opened called signed =>
    exfalso
    rcases front.of_opened with ⟨rfl, last⟩ | ⟨rfl, b, d, shape, sign⟩
    · by_cases marked : openMark ∈ op.left
      · obtain ⟨lead, v, same, sign⟩ := leftOperand?_marked_shape left marked
        rw [same, List.append_assoc, List.cons_append] at rest
        exact not_way_opened sign rest
      · exact not_mark_before_left found marked last
    · cases step with
      | first h => exact not_lead_before_left found (by rw [first]; exact h) sign shape
  | inside called name =>
    exfalso
    have inner := front.of_inside
    cases step with
    | goOn h =>
      rw [operand (isOperandChar_of_isAlpha h)] at inner
      contradiction
    | count h _ =>
      rw [operand (isOperandChar_of_isArgumentChar h)] at inner
      contradiction
    | leave _ => rcases leftOperand?_head head with h | h | h <;> exact absurd h (by decide)

theorem number_append (fits : Rules.solved.number x) (name : Text) (h : Rules.solved.number name) :
    Rules.solved.number (x ++ name) := by
  rcases h with rfl | member
  · rwa [List.append_nil]
  · exact .inr (List.mem_append_right x member)

/-- What stands behind a right operand can stand behind a value. -/
theorem Admits.behind_right (found : rightOperand? u = some (right, after))
    (way : Way Rules.solved p right q) (rest : Admits Rules.solved q after)
    (fits : Rules.solved.number x) (ahead : Ahead) : Admits Rules.solved (outside ahead x) after := by
  obtain ⟨opening, row, closing, rfl, operand, last⟩ := rightOperand?_shape found
  rcases last with rfl | ⟨rfl, stop, unclosed⟩
  · rw [← List.append_assoc] at way
    obtain ⟨_, _, closes⟩ := way.last
    obtain ⟨called, _, _, rfl⟩ := closes.of_closeMark
    have place : Ahead.closed called = .argument ∨
        Ahead.closed called = .group ∧ ∀ n, ¬ Rules.solved.call n := by
      cases called with
      | true => exact .inl rfl
      | false => exact .inr ⟨rfl, fun _ => id⟩
    have behind := rest.behind_value place (number_append fits) ahead
    rwa [List.append_nil] at behind
  · obtain ⟨row, d, rfl⟩ := (List.eq_nil_or_concat row).resolve_left operand.1
    rw [List.append_nil, List.concat_eq_append, ← List.append_assoc] at way
    obtain ⟨_, _, last⟩ := way.last
    have place := last.of_operand (operand.2 d (by simp))
    cases after with
    | nil => exact admits_nil _ _ _
    | cons c after =>
      have bare : isOperandChar c = false := stop
      have spelled : isOperandChar c = true → Admits Rules.solved (outside ahead x) (c :: after) := by
        intro h
        rw [h] at bare
        contradiction
      obtain ⟨m, step, rest⟩ := admits_cons.1 rest
      cases step with
      | operator h => exact admits_cons.2 ⟨_, .operator h, rest⟩
      | letter h | goOn h => exact spelled (isOperandChar_of_isAlpha h)
      | digit h _ | count h _ => exact spelled (isOperandChar_of_isArgumentChar h)
      | first h => exact spelled h
      | leave _ => contradiction
      | call _ called => exact called.elim
      | sign _ => rcases place with ⟨_, _, same⟩ | ⟨_, _, same, _⟩ <;> cases same
      | enter =>
        rcases place with ⟨_, _, same⟩ | ⟨_, _, same, some⟩
        · cases same
        · cases same
          exact absurd rfl (some rfl)

/-- A value takes the place of the operation that is found. -/
theorem Admits.spliced (h : Admits Rules.solved (outside .nothing []) t)
    (found : findOperation? rank t = some (before, op, after)) (number : y.isNaN = false) :
    Admits Rules.solved (outside .nothing []) (before ++ plain y ++ after) := by
  obtain ⟨_, _, here, _⟩ := findOperation?_leftmost found
  obtain ⟨_, _, right⟩ := operationAt?_operands here
  rw [(findOperation?_operands found).1] at h
  obtain ⟨p, front, _, _, whole⟩ := admits_append.1 h
  obtain ⟨ahead, rfl⟩ := begins_before found front whole
  obtain ⟨_, left, rest⟩ := way_append.1 whole
  obtain ⟨_, _, rest⟩ := way_cons.1 rest
  obtain ⟨_, operand, back⟩ := way_append.1 rest
  obtain ⟨ahead', name, value, fits⟩ := way_plain number ahead
  have behind := Admits.behind_right right operand ⟨_, _, back⟩ fits ahead'
  rw [List.append_assoc]
  exact admits_append.2 ⟨_, front, admits_append.2 ⟨_, value, behind⟩⟩

/-- All operations of a rank leave a segment with its marks well formed, and each of them does. -/
theorem solveRank_keeps (context : Context) (rank : Rank) (h : Admits Rules.solved (outside .nothing []) t) :
    (solveRank context rank t).Keeps Event.IsWellMarked (Admits Rules.solved (outside .nothing [])) := by
  fun_induction solveRank context rank t with
  | case1 => exact Traced.keeps_pure h
  | case2 t before op after found ih =>
    refine (Traced.keeps_ofExcept _).bind fun x solved => ?_
    have spliced := h.spliced found (Operation.solve_number solved)
    refine (Traced.keeps_emit ?_).bind fun _ _ => ih x spliced.reduceSigns
    exact List.forall_mem_cons.2 ⟨spliced.awaits, List.forall_mem_singleton.2 spliced.reduceSigns.awaits⟩

theorem solveOperations_keeps (context : Context) (h : Admits Rules.solved (outside .nothing []) t) :
    (solveOperations context t).Keeps Event.IsWellMarked
      (Admits Rules.solved (outside .nothing [])) := by
  unfold solveOperations
  generalize Rank.all = ranks
  induction ranks generalizing t with
  | nil => exact Traced.keeps_pure h
  | cons rank ranks ih =>
    rw [List.foldlM_cons]
    exact (solveRank_keeps context rank h).bind fun _ => ih

/-- The search for calls can go on here. What it has passed is not the name of a function, and no name
is cut in two. -/
structure Resumes (p : Site) (t : Text) : Prop where
  passed : Function.ofName? p.name = none
  whole : startsWith Char.isAlpha t = true → p.name = []
  number : startsWith isArgumentChar t = true → Rules.solved.number p.name

theorem resumes_of_nil (none : p.name = []) (t : Text) : Resumes p t := by
  refine ⟨?_, fun _ => none, fun _ => ?_⟩
  · rw [none, ofName?_nil]
  · rw [none]
    exact number_nil

theorem Step.name_nil (step : Step rules p c q) (other : c.isAlpha = false) : q.name = [] := by
  cases step with
  | letter h | goOn h =>
    rw [other] at h
    contradiction
  | first _ => exact firstName_of_other other
  | digit _ _ | operator _ | enter | call _ _ | sign _ | count _ _ | leave _ => rfl

/-- What is no letter ends a name. -/
theorem Way.name_of_letterless (way : Way rules p t q) (letterless : Letterless t) (some : t ≠ []) :
    q.name = [] := by
  obtain ⟨u, c, rfl⟩ := (List.eq_nil_or_concat t).resolve_left some
  rw [List.concat_eq_append] at way letterless
  obtain ⟨_, _, step⟩ := way.last
  exact step.name_nil (letterless c (by simp))

theorem Step.solved (step : Step Rules.drafted p c q) (resumes : Resumes p (c :: t))
    (other : c.isAlpha = false) : Step Rules.solved p c q := by
  cases step with
  | letter h => exact .letter h
  | digit h _ => exact .digit h (resumes.number h)
  | operator h => exact .operator h
  | enter => exact .enter
  | @call _ name _ function =>
    have passed : Function.ofName? name = none := resumes.passed
    have some : (Function.ofName? name).isSome = true := function
    rw [passed] at some
    contradiction
  | sign h => exact .sign h
  | first h => exact .first h
  | goOn h => exact .goOn h
  | count h notFunction => exact .count h notFunction
  | leave _ => exact .leave resumes.passed

/-- What is no letter is passed over. -/
theorem Way.letterless (way : Way Rules.drafted p u q) (resumes : Resumes p (u ++ t))
    (letterless : Letterless u) : Way Rules.solved p u q ∧ Resumes q t := by
  induction u generalizing p with
  | nil =>
    cases way
    exact ⟨.nil _, resumes⟩
  | cons c u ih =>
    obtain ⟨other, rest⟩ := List.forall_mem_cons.1 letterless
    obtain ⟨m, step, way⟩ := way_cons.1 way
    obtain ⟨way', behind⟩ := ih way (resumes_of_nil (step.name_nil other) _) rest
    exact ⟨.cons (step.solved resumes other) way', behind⟩

theorem Step.of_letter (step : Step rules p c q) (letter : c.isAlpha = true) (rules' : Rules) :
    Step rules' p c q ∧
      ((∃ ahead name, p = outside ahead name ∧ q = outside ahead (name ++ [c])) ∨
        ∃ called, q = inside called (p.name ++ [c])) := by
  have operand := isOperandChar_of_isAlpha letter
  cases step with
  | letter h => exact ⟨.letter h, .inl ⟨_, _, rfl, rfl⟩⟩
  | goOn h => exact ⟨.goOn h, .inr ⟨_, rfl⟩⟩
  | first h => exact ⟨.first h, .inr ⟨_, congrArg (inside _) (firstName_of_letter letter)⟩⟩
  | digit h _ | count h _ =>
    rw [not_isAlpha_of_isArgumentChar h] at letter
    contradiction
  | operator h =>
    obtain ⟨o, rfl⟩ := isOperator_iff.1 h
    rw [Operator.not_isOperandChar_symbol] at operand
    contradiction
  | sign h =>
    rw [not_isOperandChar_of_isSign h] at operand
    contradiction
  | enter | call _ _ | leave _ => exact absurd letter (by decide)

/-- A name is read whatever the rules are, and it stays outside of marks, or in them. -/
theorem Way.of_letters (way : Way rules p x q) (some : x ≠ []) (letters : Letters x) (rules' : Rules) :
    Way rules' p x q ∧ ((∃ ahead name, p = outside ahead name ∧ q = outside ahead (name ++ x)) ∨
      ∃ called, q = inside called (p.name ++ x)) := by
  induction x generalizing p with
  | nil => exact absurd rfl some
  | cons c x ih =>
    obtain ⟨letter, rest⟩ := List.forall_mem_cons.1 letters
    obtain ⟨m, step, way⟩ := way_cons.1 way
    obtain ⟨step', place⟩ := step.of_letter letter rules'
    by_cases more : x = []
    · subst more
      cases way
      exact ⟨.cons step' (.nil _), place⟩
    · obtain ⟨way', last⟩ := ih way more rest
      refine ⟨.cons step' way', ?_⟩
      rcases place with ⟨ahead, name, rfl, rfl⟩ | ⟨called, rfl⟩
      · rcases last with ⟨_, _, ⟨⟩, rfl⟩ | ⟨called, rfl⟩
        · exact .inl ⟨ahead, name, rfl, by rw [List.append_assoc]; rfl⟩
        · exact .inr ⟨called, by simp [Site.name]⟩
      · rcases last with ⟨_, _, ⟨⟩, _⟩ | ⟨called, rfl⟩
        exact .inr ⟨called, by simp [Site.name]⟩

/-- The first name of what follows is read outside of marks, or in them, and no name stands before it. -/
theorem Admits.exists_name (h : Admits Rules.drafted p (u ++ (x ++ t))) (resumes : Resumes p (u ++ (x ++ t)))
    (letterless : Letterless u) (some : x ≠ []) (letters : Letters x) :
    ∃ m q, Way Rules.solved p u m ∧ Way Rules.solved m x q ∧ Admits Rules.drafted q t ∧
      ((∃ ahead, m = outside ahead [] ∧ q = outside ahead x) ∨ ∃ called, q = inside called x) := by
  obtain ⟨m, way, rest⟩ := admits_append.1 h
  obtain ⟨q, way', rest⟩ := admits_append.1 rest
  obtain ⟨passed, whole⟩ := way.letterless resumes letterless
  have none : m.name = [] := by
    apply whole.whole
    obtain ⟨c, x, rfl⟩ := List.exists_cons_of_ne_nil some
    exact letters c (.head _)
  obtain ⟨read, place⟩ := way'.of_letters some letters Rules.solved
  refine ⟨m, q, passed, read, rest, ?_⟩
  rcases place with ⟨ahead, name, rfl, rfl⟩ | ⟨called, rfl⟩
  · obtain rfl : name = [] := none
    exact .inl ⟨ahead, rfl, rfl⟩
  · rw [none]
    exact .inr ⟨called, rfl⟩

theorem argument_ne_nil (found : argument? t = some (argument, tail)) : argument ≠ [] := by
  rintro rfl
  have same : t = tail := argument?_eq_append found
  have less := callWeight_rest_lt found
  rw [same] at less
  exact absurd less (Nat.lt_irrefl _)

theorem Way.of_digits (way : Way rules (outside ahead name) t q) (some : t ≠ [])
    (digits : ∀ c ∈ t, isArgumentChar c = true) : q = outside .argument [] := by
  induction t generalizing ahead name with
  | nil => exact absurd rfl some
  | cons c t ih =>
    obtain ⟨digit, rest⟩ := List.forall_mem_cons.1 digits
    obtain ⟨m, step, way⟩ := way_cons.1 way
    have first : m = outside .argument [] := by
      cases step with
      | digit _ _ => rfl
      | letter h =>
        rw [not_isAlpha_of_isArgumentChar digit] at h
        contradiction
      | operator h =>
        obtain ⟨o, rfl⟩ := isOperator_iff.1 h
        cases o <;> contradiction
      | enter | call _ _ => contradiction
    subst first
    by_cases more : t = []
    · subst more
      cases way
      rfl
    · exact ih way more rest

/-- The place is in called marks. -/
def Called (p : Site) : Prop := (∃ signed, p = opened true signed) ∨ ∃ name, p = inside true name

theorem Step.in_called (step : Step rules p c q) (h : p.Called) (unclosed : c ≠ closeMark) :
    q.Called := by
  rcases h with ⟨signed, rfl⟩ | ⟨name, rfl⟩
  · cases step with
    | sign _ => exact .inl ⟨_, rfl⟩
    | first _ => exact .inr ⟨_, rfl⟩
  · cases step with
    | goOn _ | count _ _ => exact .inr ⟨_, rfl⟩
    | leave _ => exact absurd rfl unclosed

theorem Way.in_called (way : Way rules p t q) (h : p.Called) (unclosed : closeMark ∉ t) :
    q.Called := by
  induction way with
  | nil => exact h
  | cons step _ ih =>
    have first := List.ne_of_not_mem_cons unclosed
    exact ih (step.in_called h first.symm) (List.not_mem_of_not_mem_cons unclosed)

/-- An argument outside of marks is passed as a whole. -/
theorem Admits.of_argument (h : Admits rules (outside ahead name) t) (named : name ≠ [])
    (found : argument? t = some (argument, tail)) : Admits rules (outside .argument []) tail := by
  rw [argument?_eq_append found] at h
  obtain ⟨m, way, rest⟩ := admits_append.1 h
  suffices same : m = outside .argument [] from same ▸ rest
  rcases argument?_shape found with digits | ⟨sign, size, rfl, lead, sized⟩
  · exact way.of_digits (argument_ne_nil found) digits
  · obtain ⟨_, enters, way⟩ := way_cons.1 way
    have unclosed : closeMark ∉ sign ++ size := by
      intro member
      rcases List.mem_append.1 member with front | back
      · exact absurd (lead.signs _ front) (by decide)
      · rcases sized with rfl | ⟨_, digits⟩
        · exact absurd back (by decide)
        · exact absurd (digits _ back) (by decide)
    rw [← List.append_assoc] at way
    obtain ⟨_, inner, closes⟩ := way.last
    obtain ⟨called, _, rfl, rfl⟩ := closes.of_closeMark
    cases enters with
    | letter h | digit h _ | operator h => exact absurd h (by decide)
    | enter => exact absurd rfl named
    | call _ _ =>
      rcases inner.in_called (.inl ⟨_, rfl⟩) unclosed with ⟨_, ⟨⟩⟩ | ⟨_, ⟨⟩⟩
      rfl

/-- What stands behind an argument can stand behind a value. -/
theorem Admits.behind_call (h : Admits Rules.drafted (outside .argument []) t) (ahead : Ahead) (x : Text) :
    Admits Rules.drafted (outside ahead x) t := by
  have behind := h.behind_value (x := x) (.inl rfl) (fun _ _ => trivial) ahead
  rwa [List.append_nil] at behind

theorem plain_ne_nil (number : y.isNaN = false) : plain y ≠ [] := by
  rw [plain_eq number]
  exact List.append_ne_nil_of_right_ne_nil _ (isTame_sizeText _).row.1

/-- In marks no function has an argument. -/
theorem Admits.not_called (h : Admits rules (inside called name) t)
    (found : argument? t = some (argument, tail)) : Function.ofName? name = none := by
  cases t with
  | nil => contradiction
  | cons c t =>
    obtain ⟨m, step, _⟩ := admits_cons.1 h
    cases step with
    | count _ other => exact other
    | goOn h =>
      have unmarked : c ≠ openMark := by
        rintro rfl
        contradiction
      have number : isArgumentChar c = false := by
        rw [Bool.eq_false_iff]
        intro digit
        rw [not_isAlpha_of_isArgumentChar digit] at h
        contradiction
      rw [argument?_of_not unmarked number] at found
      contradiction
    | leave _ => contradiction

/-- All calls leave a segment with its marks well formed, and each of them does. The induction is along
its names; infinity is read once more, but with what is in front of it. -/
theorem solveCalls_keeps {done : Text} (free : FunctionsFree context.bindings)
    (front : Way Rules.solved (outside .nothing []) done p) (rest : Admits Rules.drafted p t)
    (resumes : Resumes p t) : (solveCalls context done t).Keeps Event.IsWellMarked
      (Admits Rules.solved (outside .nothing [])) := by
  induction t using calls_induction generalizing done p with
  | letterless t letterless =>
    rw [solveCalls_of_letterless letterless]
    obtain ⟨ahead, name, way⟩ := rest
    rw [← List.append_nil t] at resumes
    exact Traced.keeps_pure ⟨ahead, name, front.append (way.letterless resumes letterless).1⟩
  | named u name t letterless nonempty letters stop missed ih =>
    rw [solveCalls_of_name letterless nonempty letters stop missed]
    split
    next => exact Traced.keeps_fail _
    next uncalled =>
      obtain ⟨m, q, way, way', rest, place⟩ := rest.exists_name resumes letterless nonempty letters
      have passed := free.ofName?_eq_none uncalled
      have numberless := numberless_of_missed missed
      refine ih ((front.append way).append way') rest ⟨?_, ?_, ?_⟩
      · rcases place with ⟨ahead, _, rfl⟩ | ⟨called, rfl⟩ <;> exact passed
      · rw [stop]
        exact nofun
      · rw [numberless]
        exact nofun
  | called u name t argument tail letterless nonempty letters stop found ih ihInfinite =>
    rw [solveCalls_of_called letterless nonempty letters stop found]
    obtain ⟨m, q, way, way', rest, place⟩ := rest.exists_name resumes letterless nonempty letters
    refine (Traced.keeps_ofExcept _).bind fun x solved => ?_
    have number := solveCall_number solved
    rcases place with ⟨ahead, rfl, rfl⟩ | ⟨called, rfl⟩
    · have behind := rest.of_argument nonempty found
      have before := front.append way
      obtain ⟨ahead', name', value, fits⟩ := way_plain number ahead
      have whole : Admits Rules.any (outside .nothing []) (done ++ u ++ plain x ++ tail) :=
        admits_append.2 ⟨_, (before.append value).mono (Rules.le_any _),
          (behind.behind_call ahead' name').mono (Rules.le_any _)⟩
      refine (Traced.keeps_emit (List.forall_mem_singleton.2 whole.awaits)).bind fun _ _ => ?_
      split
      next infinite =>
        obtain ⟨ahead', sign⟩ := way_lead (isLead_signText (isNegative x)) ahead
        have again : Admits Rules.drafted (outside ahead' []) (infinityName ++ tail) :=
          admits_append.2 ⟨_, way_letters letters_infinityName ahead' [], behind.behind_call ahead' _⟩
        exact ihInfinite (before.append sign) again (resumes_of_nil rfl _)
      next finite =>
        obtain rfl : name' = [] :=
          value.name_of_letterless (letterless_plain number finite) (plain_ne_nil number)
        exact ih (before.append value) (behind.behind_call ahead' []) (resumes_of_nil rfl tail)
    · rw [solveCall, rest.not_called found] at solved
      contradiction

end Site

end Reckoner
