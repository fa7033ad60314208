import Reckoner.Proofs.Evaluation.Agreement
import Reckoner.Proofs.Expression.Substitution

set_option autoImplicit false

namespace Reckoner

open Double

/-- The variable alone, with a sign at most, in any number of parentheses. -/
inductive Lone (x : Name) : Text → Prop
  | bare {lead : Text} (sign : IsLead lead) : Lone x (lead ++ x.text)
  | group {lead t : Text} (sign : IsLead lead) (h : Lone x t) :
    Lone x (lead ++ '(' :: (t ++ [')']))

/-- A function is called with the variable alone as its argument. -/
def CallsAlone (context : Context) (x : Name) (t : Text) : Prop :=
  ∃ p f u q, t = p ++ (callText f u ++ q) ∧ Leads p ∧ context.bindings.has f.name = false ∧
    Lone x u

/-- A variable as an operand and its value as one, also as the values of groups. -/
inductive Stands (x : Name) (v : Float) : Text → Text → Prop
  | bare : Stands x v x.text (markValue (plain v))
  | marked {lead o o' : Text} (sign : IsLead lead) (h : Stands x v o o') :
    Stands x v (markValue (lead ++ o)) (markValue (lead ++ o'))

/-- An operand that can be called, and that is not this variable. -/
def IsCallableBeside (context : Context) (x : Name) (o : Text) : Prop :=
  IsCallable context o ∧ (IsPlainOperand o → operandRow o ≠ x.text)

variable {context context' : Context} {x : Name} {v : Float} {t u p q o o' a b s f : Text}
  {stage : Stage}

theorem Name.isWord (x : Name) : IsWord x.text := .name x.nonempty x.letters

theorem Stands.left (h : Stands x v o o') : IsPlainOperand o ∧ operandRow o = x.text := by
  induction h with
  | bare => exact ⟨.word x.isWord, operandRow_row x.isWord.row⟩
  | marked sign _ ih =>
    refine ⟨isPlainOperand_marked sign.signs ih.1, ?_⟩
    rw [operandRow_marked sign.signs ih.1, ih.2]

theorem Stands.right (h : Stands x v o o') (number : v.isNaN = false) :
    IsPlainOperand o' ∧ operandRow o' ≠ x.text := by
  induction h with
  | bare =>
    have written : IsWritten (sizeText (magnitude v)) := ⟨v, number, rfl⟩
    have signs := (isLead_valueSign v).signs
    rw [plain_eq number, operandRow_marked signs (.word written.isWord),
      operandRow_row written.isWord.row]
    exact ⟨.marked (isLead_valueSign v) written.isWord, written.ne_name x⟩
  | marked sign _ ih =>
    refine ⟨isPlainOperand_marked sign.signs ih.1, ?_⟩
    rw [operandRow_marked sign.signs ih.1]
    exact ih.2

/-- Both operands stand for the value of the variable, or for its opposite. -/
theorem Stands.values (h : Stands x v o o')
    (bound : context.bindings.get? x.text = some (.number v)) (number : v.isNaN = false)
    (signed : v ≠ -0) : ∃ y, Denotes context o y ∧ Denotes context o' y := by
  induction h with
  | bare =>
    have value := denotes_markValue_plain context number
    rw [written_eq number signed] at value
    exact ⟨v, Name.denotes bound, value⟩
  | marked sign _ ih =>
    obtain ⟨y, left, right⟩ := ih
    exact ⟨_, left.markValue sign, right.markValue sign⟩

theorem markValue_signs (signs : ∀ c ∈ s, isSign c = true) (o : Text) :
    markValue (s ++ o) = markValue (reduceSigns s ++ o) := by
  have lead := (isLead_reduceSigns signs).signs
  unfold markValue bareOperand
  rw [stripMarks_append, stripMarks_append, stripMarks_signs signs, stripMarks_signs lead,
    reduceSigns_reduceSigns_append]

theorem Stands.signs (h : Stands x v o o') (signs : ∀ c ∈ s, isSign c = true) :
    Stands x v (markValue (s ++ o)) (markValue (s ++ o')) := by
  rw [markValue_signs signs o, markValue_signs signs o']
  exact .marked (isLead_reduceSigns signs) h

/-- A call is no operand on its own. -/
theorem not_isPlainOperand_call (f : Function) (h : IsMarked o) :
    ¬ IsPlainOperand (f.name ++ o) := by
  obtain ⟨_, _, _, _, rfl⟩ := h
  intro plain
  obtain ⟨c, s, shape⟩ := List.exists_cons_of_ne_nil (name_ne_nil f)
  have letter := letters_name f c (by rw [shape]; exact .head _)
  generalize whole : f.name ++ markValue _ = o at plain
  cases plain with
  | word h =>
    have wrong := h.row.2 openMark (by rw [← whole, markValue]; simp)
    exact absurd wrong (by decide)
  | marked sign h =>
    rw [shape, List.cons_append] at whole
    rw [(List.cons.inj whole).1] at letter
    exact absurd letter (by decide)

theorem IsCallable.run (h : IsCallable context o) (place : Place) : place.run o = .other := by
  have marked (t : Text) : place.run (markValue t) = .other := place.run_markValue [] t
  cases h with
  | direct h =>
    cases h with
    | word h => exact Place.run_row h.row place
    | marked => exact marked _
  | applied l nonempty letters => rw [Place.run_append, Place.run_row l.isRow]
  | called => exact place.run_markValue _ _

/-- What a segment with the variable and one with its value come to: the same, or again the variable
and its value as operands. -/
theorem Swapped.solveSegment {ls : List Link} {place : Place}
    (bound : context.bindings.get? x.text = some (.number v)) (number : v.isNaN = false)
    (signed : v ≠ -0) (chain : IsChainOf (IsCallable context) ls)
    (h : Swapped (Stands x v) .start (linksText ls) u place) :
    Matches (fun a b => a = b ∨ Stands x v a b) (Reckoner.solveSegment context (linksText ls)).outcome
      (Reckoner.solveSegment context u).outcome := by
  have values {o o' : Text} (h : Stands x v o o') :
      ∃ y, Denotes context o y ∧ Denotes context o' y := h.values bound number signed
  have calls {o o' : Text} (h : Stands x v o o') : ∃ r r', Stands x v r r' ∧ o ≠ [] ∧
      CallsLeave context o r ∧ CallsLeave context o' r' := by
    obtain ⟨y, left, right⟩ := values h
    exact ⟨o, o', h, left.tame.operand.ne_nil, fun done t ends => left.tame.solveCalls ends done,
      fun done t ends => right.tame.solveCalls ends done⟩
  rw [solveSegment_outcome, solveSegment_outcome]
  refine (h.solveCalls calls).with_left.bind fun w w' ⟨solved, _, h⟩ => ?_
  refine (((h.solveOperations values).with_left.mapError _).mapError_right _).map ?_
  rintro _ u ⟨solved', _, h⟩
  obtain ⟨s, o, rfl, front, _⟩ := chain.solveOperations solved solved'
  rcases h.operand (operands_of_values values) front.signs front.operand with rfl | ⟨o', same, rfl⟩
  · exact .inl rfl
  · exact .inr (same.signs front.signs)

/-- What a segment of operands comes to is the variable only if this is all there is in it. -/
theorem IsChainOf.alone {ls : List Link} (chain : IsChainOf (IsCallable context) ls)
    (solved : (Reckoner.solveSegment context (linksText ls)).outcome = .ok a)
    (row : operandRow a = x.text) :
    ∃ l, ls = [l] ∧ IsPlainOperand l.operand ∧ operandRow l.operand = x.text := by
  rcases solveSegment_chain chain with ⟨f, failed⟩ | ⟨lead, r, solved', sign, word, kept⟩
  · rw [solved] at failed
    contradiction
  · rw [solved] at solved'
    cases solved'
    rw [operandRow_marked sign.signs (.word word), operandRow_row word.row] at row
    rcases kept with written | ⟨l, single, plain, rfl⟩
    · exact absurd row (written.ne_name x)
    · exact ⟨l, single, plain, row⟩

/-- The two texts without groups that an expression and the one with the variable replaced come to,
up to a stage of reading them. -/
inductive Tracks (context : Context) (x : Name) (v : Float) : Stage → Text → Text → Text → Prop
  | front {ls : List Link} {glue : Option Operator} {lead t u : Text} {place : Place}
    (opens : Opens (IsCallable context) ls glue lead) (first : ls = [] → IsLead t)
    (swapped : Swapped (Stands x v) .start (linksText (ls ++ [⟨glue, lead, []⟩])) u place)
    (admits : place.admits = true) (other : FlatAs (IsCallableBeside context x) .front u) :
    Tracks context x v .front t (linksText (ls ++ [⟨glue, lead, []⟩])) u
  | whole {ls : List Link} {t u : Text} {place : Place} (chain : IsChainOf (IsCallable context) ls)
    (alone : ∀ l, ls = [l] → IsPlainOperand l.operand → operandRow l.operand = x.text → Lone x t)
    (swapped : Swapped (Stands x v) .start (linksText ls) u place)
    (closed : place = .other ∨ place = .swapped)
    (other : FlatAs (IsCallableBeside context x) .whole u) :
    Tracks context x v .whole t (linksText ls) u

/-- What the operands of the two texts are. -/
structure Tracked (context : Context) (x : Name) (v : Float) (f o o' : Text) : Prop where
  callable : IsCallable context o
  beside : IsCallableBeside context x o'
  same : o = o' ∨ Stands x v o o'
  alone : IsPlainOperand o → operandRow o = x.text → ∀ lead, IsLead lead → Lone x (lead ++ f)

theorem tracks_lead (sign : IsLead t) : Tracks context x v .front t t t := by
  have shape : linksText ([] ++ [⟨none, t, []⟩]) = t := by
    rw [linksText_snoc]
    simp [linksText, Link.symbol]
  have admits : (Place.start.run t).admits = true := by
    rcases sign with rfl | rfl | rfl <;> rfl
  have front : FlatAs (IsCallableBeside context x) .front (linksText ([] ++ [⟨none, t, []⟩])) :=
    .front (opens_nil sign)
  have all : Tracks context x v .front t (linksText ([] ++ [⟨none, t, []⟩])) t := by
    refine .front (opens_nil sign) (fun _ => sign) ?_ admits ?_
    · rw [shape]
      exact .same t Place.noConfusion
    · rwa [shape] at front
  rwa [shape] at all

theorem Tracks.operand (front : Tracks context x v .front p a b)
    (h : Tracked context x v f o o') : Tracks context x v .whole (p ++ f) (a ++ o) (b ++ o') := by
  cases front with
  | @front ls glue lead _ _ place opens first swapped admits other =>
    obtain ⟨place', closed, behind⟩ : ∃ place', (place' = .other ∨ place' = .swapped) ∧
        Swapped (Stands x v) place o o' place' := by
      rcases h.same with rfl | stands
      · have start : place ≠ .swapped := by
          rintro rfl
          contradiction
        have all : Swapped (Stands x v) place o o _ := .same o start
        rw [h.callable.run] at all
        exact ⟨_, .inl rfl, all⟩
      · have all : Swapped (Stands x v) place (o ++ []) (o' ++ []) .swapped :=
          .swap admits stands (.nil _)
        rw [List.append_nil, List.append_nil] at all
        exact ⟨_, .inr rfl, all⟩
    have whole := swapped.append behind
    rw [linksText_operand] at whole ⊢
    refine .whole (opens.snoc h.callable) (fun l single plain row => ?_) whole closed
      (other.operand h.beside)
    cases ls with
    | nil =>
      cases single
      exact h.alone plain row p (first rfl)
    | cons m ls => simp at single

theorem IsJoint.swapped {pair : Text → Text → Prop} {place : Place} (h : IsJoint t)
    (closed : place = .other ∨ place = .swapped) :
    ∃ place', Swapped pair place t t place' ∧ place'.admits = true := by
  have behind (o : Operator) (w : Text) :
      Swapped pair place (o.symbol :: w) (o.symbol :: w) ((place.step o.symbol).run w) :=
    .char (fun _ => isOperator_iff.2 ⟨o, rfl⟩) (.same w (place.step_ne_swapped _))
  refine ⟨place.run t, ?_, ?_⟩
  · cases h with
    | sum => exact behind _ []
    | signed => exact behind _ _
  · cases h with
    | @sum o rank => cases o <;> rcases closed with rfl | rfl <;> rfl
    | @signed o lead rank sign =>
      rcases sign with rfl | rfl | rfl <;> cases o <;> first | rfl | contradiction

theorem Tracks.joint (whole : Tracks context x v .whole s a b) (joint : IsJoint t) :
    Tracks context x v .front (s ++ t) (a ++ t) (b ++ t) := by
  cases whole with
  | @whole ls _ _ place chain alone swapped closed other =>
    obtain ⟨glue, lead, opens, rfl⟩ := chain.opens joint
    have shape : linksText ls ++ ((Link.mk glue lead []).symbol ++ lead) =
        linksText (ls ++ [⟨glue, lead, []⟩]) := by
      rw [linksText_snoc, List.append_nil]
    obtain ⟨place', behind, admits⟩ : ∃ place', Swapped (Stands x v) place _ _ place' ∧ _ :=
      joint.swapped closed
    have front := swapped.append behind
    rw [shape] at front ⊢
    exact .front opens (fun none => absurd none chain.nonempty) front admits (other.joint joint)

/-- What two groups come to. -/
structure Valued (x : Name) (v : Float) (t a b : Text) : Prop where
  marked : IsMarked a
  marked' : IsMarked b
  other : operandRow b ≠ x.text
  same : a = b ∨ Stands x v a b
  alone : operandRow a = x.text → Lone x t

theorem Tracks.segment (agree : AgreeBeside x context context')
    (bound : context.bindings.get? x.text = some (.number v)) (number : v.isNaN = false)
    (signed : v ≠ -0) (h : Tracks context x v .whole t a b) :
    Matches (Valued x v t) (solveSegment context a).outcome (solveSegment context' b).outcome := by
  cases h with
  | @whole ls _ _ place chain lone swapped closed other =>
  cases other with
  | @whole ls' chain' =>
  have callables := chain'.mono fun _ _ h => h.1
  rw [← agree.solveSegment callables fun l member => (chain'.operand l member).2]
  rcases (swapped.solveSegment bound number signed chain).cases with
    ⟨a, b, solved, solved', same⟩ | ⟨e, e', failed, failed'⟩
  · rw [solved, solved']
    refine ⟨chain.isMarked solved, callables.isMarked solved', fun row => ?_, same, fun row => ?_⟩
    · obtain ⟨l, rfl, plain, row'⟩ := callables.alone solved' row
      exact (chain'.operand l (.head _)).2 plain row'
    · obtain ⟨l, single, plain, row'⟩ := chain.alone solved row
      exact lone l single plain row'
  · rw [failed, failed']
    exact .error e e'

/-- The values of two groups are operands, with the name of the function that is called in front. -/
theorem Valued.tracked {y : Text} (h : Valued x v t a b) (call : IsCallName context y)
    (alone : y ≠ [] → ¬ Lone x t) :
    Tracked context x v (y ++ '(' :: (t ++ [')'])) (y ++ a) (y ++ b) := by
  have callable := h.marked.isCallable call
  have callable' := h.marked'.isCallable call
  rcases call with rfl | ⟨f, rfl, _⟩
  · exact ⟨callable, ⟨callable', fun _ => h.other⟩, h.same, fun _ row lead sign =>
      .group sign (h.alone row)⟩
  · refine ⟨callable, ⟨callable', fun plain => ?_⟩, ?_, fun plain => ?_⟩
    · exact absurd plain (not_isPlainOperand_call f h.marked')
    · refine .inl (congrArg (f.name ++ ·) (h.same.resolve_right fun stands => ?_))
      exact alone (name_ne_nil f) (h.alone stands.left.2)
    · exact absurd plain (not_isPlainOperand_call f h.marked)

/-- The values of two expressions. -/
theorem Valued.resolve (h : Valued x v t a b) (agree : AgreeBeside x context context')
    (bound : context.bindings.get? x.text = some (.number v)) (number : v.isNaN = false)
    (signed : v ≠ -0) : resolveOperand context a = resolveOperand context' b := by
  have other : IsOther x b := ⟨h.marked'.plain.isWord.row, h.other⟩
  have right : resolveOperand context b = resolveOperand context' b :=
    (agree.resolve other (t := []) nofun).1
  rw [← right]
  rcases h.same with rfl | stands
  · rfl
  · obtain ⟨y, left, right⟩ := stands.values bound number signed
    exact (left.resolve isLead_nil).1.trans (right.resolve isLead_nil).1.symm

section Parallel

/-- A text and the one with its constants replaced are solved to related texts, or both fail. -/
def Parallel (context context' : Context) (constants : Table Text Constant)
    (related : Text → Text → Prop) (t : Text) : Prop :=
  ∃ t' flat flat', replaceConstants constants t = .ok t' ∧ Flattens context t flat ∧
    Flattens context' t' flat' ∧ Matches related flat flat'

variable {constants : Table Text Constant} {related related' both : Text → Text → Prop}

theorem Parallel.append (h : Parallel context context' constants related t)
    (h' : Parallel context context' constants related' u) (cut : CutBetween t u)
    (next : ∀ a b a' b', related a b → related' a' b' → both (a ++ a') (b ++ b')) :
    Parallel context context' constants both (t ++ u) := by
  obtain ⟨t', flat, flat', replaced, solved, solved', alike⟩ := h
  obtain ⟨u', flat₁, flat₁', replaced', solved₁, solved₁', alike'⟩ := h'
  refine ⟨t' ++ u', _, _, ?_, solved.append solved₁, solved'.append solved₁', ?_⟩
  · rw [replaceConstants_append cut, replaced, replaced']
    rfl
  · exact alike.bind fun a b h => alike'.map fun a' b' h' => next a b a' b' h h'

theorem Parallel.group (h : Parallel context context' constants related t)
    (segment : ∀ a b, related a b → Matches both (solveSegment context a).outcome
      (solveSegment context' b).outcome) :
    Parallel context context' constants both ('(' :: (t ++ [')'])) := by
  obtain ⟨t', flat, flat', replaced, solved, solved', alike⟩ := h
  refine ⟨'(' :: (t' ++ [')']), _, _, ?_, solved.group, solved'.group, alike.bind segment⟩
  have opening : replaceConstants constants ['('] = .ok ['('] :=
    replaceConstants_of_none (by decide)
  have closing : replaceConstants constants [')'] = .ok [')'] :=
    replaceConstants_of_none (by decide)
  rw [← List.singleton_append, replaceConstants_append (.inl fun c last => by cases last; rfl),
    replaceConstants_append (.inr fun c first => by cases first; rfl), opening, replaced, closing]
  rfl

theorem parallel_same (none : replaceConstants constants t = .ok t) (open' : '(' ∉ t)
    (close : ')' ∉ t) : Parallel context context' constants (Only t t) t :=
  ⟨t, _, _, none, flattens_of_flat open' close, flattens_of_flat open' close, rfl, rfl⟩

theorem Parallel.mono (h : Parallel context context' constants related t)
    (next : ∀ a b, related a b → both a b) : Parallel context context' constants both t := by
  obtain ⟨t', flat, flat', replaced, solved, solved', alike⟩ := h
  exact ⟨t', flat, flat', replaced, solved, solved', alike.mono next⟩

end Parallel

theorem tracked_same (callable : IsCallable context f) (other : operandRow f ≠ x.text) :
    Tracked context x v f f f :=
  ⟨callable, ⟨callable, fun _ => other⟩, .inl rfl, fun _ row => absurd row other⟩

theorem parallel_other (callable : IsCallable context f ∧ '(' ∉ f ∧ ')' ∉ f) (row : IsRow f)
    (other : f ≠ x.text) (kept : replaceConstants (x.constant v) f = .ok f) :
    Parallel context context' (x.constant v) (Tracked context x v f) f := by
  refine (parallel_same kept callable.2.1 callable.2.2).mono ?_
  rintro _ _ ⟨rfl, rfl⟩
  refine tracked_same callable.1 ?_
  rwa [operandRow_row row]

theorem replaceConstants_literal (l : Literal) (constants : Table Text Constant) :
    replaceConstants constants l.text = .ok l.text :=
  replaceConstants_of_none fun _ member => not_isConstantChar_of_isArgumentChar (l.mem_text member)

/-- Operands without groups are solved side by side: the variable and its value, or twice the
same. -/
theorem IsAtom.parallel (h : IsAtom f) (apart : ∀ l : Literal, f ≠ x.text ++ l.text)
    (number : v.isNaN = false) :
    Parallel context context' (x.constant v) (Tracked context x v f) f := by
  have callable : IsCallable context f ∧ _ := h.isCallable
  cases h with
  | literal l =>
    refine parallel_other callable l.isRow (fun same => ?_) (replaceConstants_literal l _)
    have value := l.literal?_text
    rw [same, x.literal?_text] at value
    contradiction
  | name nonempty letters =>
    have word : IsWord f := .name nonempty letters
    by_cases same : f = x.text
    · subst same
      have stands : Stands x v x.text (markValue (plain v)) := .bare
      have right := stands.right number
      refine ⟨groupText v, _, _, x.replaceConstants_self v,
        flattens_of_flat callable.2.1 callable.2.2, flattens_plain number, callable.1,
        ⟨.direct right.1, fun _ => right.2⟩, .inr stands, fun _ _ lead sign => .bare sign⟩
    · exact parallel_other callable word.row same (x.replaceConstants_other nonempty letters same)
  | @applied y l nonempty letters =>
    obtain ⟨c, s, shape, first⟩ := l.exists_cons
    have row : IsRow (y ++ l.text) :=
      ⟨List.append_ne_nil_of_left_ne_nil nonempty _, fun d member =>
        (List.mem_append.1 member).elim (fun inside => isOperandChar_of_isAlpha (letters d inside))
          (l.isRow.2 d)⟩
    have other : y ≠ x.text := by
      rintro rfl
      exact apart l rfl
    have cut : CutBetween y l.text := by
      refine .inr fun d head => ?_
      rw [shape] at head
      cases head
      exact not_isConstantChar_of_isArgumentChar first
    refine parallel_other callable row (fun same => ?_) ?_
    · have letter := x.letters c (by rw [← same, shape]; simp)
      rw [not_isAlpha_of_isArgumentChar first] at letter
      contradiction
    · rw [replaceConstants_append cut, x.replaceConstants_other nonempty letters other,
        replaceConstants_literal]
      rfl

theorem CallsAlone.around (h : CallsAlone context x t) (p q : Text) (leads : ∀ u, Leads u → Leads (p ++ u)) :
    CallsAlone context x (p ++ (t ++ q)) := by
  obtain ⟨u, f, w, r, rfl, before, free, lone⟩ := h
  exact ⟨p ++ u, f, w, r ++ q, by simp, leads u before, free, lone⟩

theorem IsCallName.parallel {y : Text} (h : IsCallName context y) :
    Parallel context context' (x.constant v) (Only y y) y := by
  refine parallel_same ?_ h.flat.1 h.flat.2
  rcases h with rfl | ⟨f, rfl, _⟩
  · exact replaceConstants_of_none nofun
  · exact x.replaceConstants_other (name_ne_nil f) (letters_name f) (x.ne_function f)

/-- An expression in which the variable is an operand, and no function's only argument, is solved side
by side with the one that has its value there. -/
theorem Written.parallel (agree : AgreeBeside x context context')
    (bound : context.bindings.get? x.text = some (.number v)) (number : v.isNaN = false)
    (signed : v ≠ -0)
    (h : Written (fun f => IsAtom f ∧ ∀ l : Literal, f ≠ x.text ++ l.text) (IsCallName context)
      stage t) (alone : ¬ CallsAlone context x t) :
    Parallel context context' (x.constant v) (Tracks context x v stage t) t := by
  have operators {w : Text} (operators : ∀ c ∈ w, isOperator c = true) :
      replaceConstants (x.constant v) w = .ok w :=
    replaceConstants_of_none fun c member => not_isConstantChar_of_isOperator (operators c member)
  have behind {p : Text} (last : ∀ c ∈ p.getLast?, isOperator c = true) (w : Text) :
      CutBetween p w := .inl fun c final => not_isConstantChar_of_isOperator (last c final)
  induction h with
  | lead sign =>
    obtain ⟨open', close⟩ := flat_of_isLead sign
    refine (parallel_same (operators sign.isOperator) open' close).mono ?_
    rintro _ _ ⟨rfl, rfl⟩
    exact tracks_lead sign
  | @atom p f front h ih =>
    have before := ih fun inside => alone (inside.around [] f fun u leads => leads)
    exact before.append (h.1.parallel h.2 number) (behind front.last_of_front f)
      fun a b o o' tracks tracked => tracks.operand tracked
  | @group p y t front call inner ih ih' =>
    have before := ih fun inside => alone (inside.around [] _ fun u leads => leads)
    have content := ih' fun inside => alone (by
      have whole := inside.around (p ++ y ++ ['(']) [')'] fun u leads => by
        rw [List.append_assoc]
        exact leads.behind_open _
      simpa using whole)
    have named : y ≠ [] → ¬ Lone x t := fun nonempty lone => by
      obtain ⟨f, rfl, free⟩ := call.resolve_left nonempty
      exact alone ⟨p, f, t, [], by simp [callText], front.leads, free, lone⟩
    have group := content.group fun a b tracks => tracks.segment agree bound number signed
    have opening : CutBetween y ('(' :: (t ++ [')'])) := by
      refine .inr fun c head => ?_
      cases head
      decide
    have whole : Parallel context context' (x.constant v)
        (Tracked context x v (y ++ '(' :: (t ++ [')']))) (y ++ '(' :: (t ++ [')'])) := by
      refine call.parallel.append group opening ?_
      rintro _ _ a b ⟨rfl, rfl⟩ valued
      exact valued.tracked call named
    exact before.append whole (behind front.last_of_front _)
      fun a b o o' tracks tracked => tracks.operand tracked
  | @joint s j before joint ih =>
    have first := ih fun inside => alone (inside.around [] j fun u leads => leads)
    obtain ⟨open', close⟩ := flat_of_isJoint joint
    refine first.append (parallel_same (operators joint.isOperator) open' close) (.inr ?_) ?_
    · intro c head
      exact not_isConstantChar_of_isOperator (joint.isOperator c (List.mem_of_mem_head? head))
    · rintro a b _ _ tracks ⟨rfl, rfl⟩
      exact tracks.joint joint

/-- The evaluations of both fail, or they have the same value. -/
theorem Parallel.solveExpression (agree : AgreeBeside x context context')
    (bound : context.bindings.get? x.text = some (.number v)) (number : v.isNaN = false)
    (signed : v ≠ -0)
    (h : Parallel context context' (x.constant v) (Tracks context x v .whole t) t) :
    ∃ t', replaceConstants (x.constant v) t = .ok t' ∧ Matches (fun a b => a = b)
      (Reckoner.solveExpression context t).outcome
      (Reckoner.solveExpression context' t').outcome := by
  obtain ⟨t', flat, flat', replaced, solved, solved', alike⟩ := h
  refine ⟨t', replaced, ?_⟩
  rw [solved.solveExpression, solved'.solveExpression]
  refine alike.bind fun a b tracks => ?_
  refine (tracks.segment agree bound number signed).bind fun a b valued => ?_
  rw [valued.resolve agree bound number signed]
  exact matches_refl _

end Reckoner
