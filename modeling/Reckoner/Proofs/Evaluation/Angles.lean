import Reckoner.Proofs.Evaluation.Quiet
import Reckoner.Proofs.Text.Runs

set_option autoImplicit false

namespace Reckoner

open Double

def NoTrig (x : Text) : Prop := ∀ f : Trig, x ≠ f.name

/-- No variable has the name of a function. -/
def FunctionsFree (bindings : Bindings) : Prop := ∀ f : Function, bindings.has f.name = false

/-- What is passed over as a name is not that of a function. -/
theorem FunctionsFree.ofName?_eq_none {bindings : Bindings} {name : Text} (free : FunctionsFree bindings)
    (passed : ¬((Function.ofName? name).isSome && !bindings.has name) = true) :
    Function.ofName? name = none := by
  cases function : Function.ofName? name with
  | none => rfl
  | some f =>
    have unbound := free f
    rw [Function.name_of_ofName? function] at unbound
    rw [function, unbound] at passed
    exact absurd rfl passed

/-- An operand that asks for no unit of angles. -/
inductive IsUnitless : Text → Prop
  | literal (l : Literal) : IsUnitless l.text
  | name {x : Text} (nonempty : x ≠ []) (letters : Letters x) : IsUnitless x
  | applied {x : Text} (l : Literal) (nonempty : x ≠ []) (letters : Letters x) (other : NoTrig x) :
    IsUnitless (x ++ l.text)
  | marked {x v : Text} (letters : Letters x) (other : NoTrig x)
    (content : IsContent (bareOperand v)) : IsUnitless (x ++ markValue v)

/-- Solving the calls in an operand fails in both units, or leaves an operand without calls. -/
def SolvesAlike (bindings : Bindings) (o : Text) : Prop :=
  (∃ e : Failure, ∀ angles done t, Ends t →
    (solveCalls ⟨bindings, angles⟩ done (o ++ t)).outcome = .error e) ∨
  ∃ o', IsQuiet o' ∧ ∀ angles, CallsLeave ⟨bindings, angles⟩ o o'

variable {bindings : Bindings} {t u v x o name argument lead : Text} {spot : Spot} {marked : Bool}
  {c : Char} {ls : List Link} {rank : Rank}

theorem Function.apply_angles {f : Function} (other : ∀ g, f ≠ .trig g) (a b : AngleMode)
    (y : Float) : f.apply a y = f.apply b y := by
  cases f with
  | trig g => exact absurd rfl (other g)
  | _ => rfl

theorem solveCall_angles (other : NoTrig name) (a b : AngleMode) (argument : Text) :
    solveCall ⟨bindings, a⟩ name argument = solveCall ⟨bindings, b⟩ name argument := by
  unfold solveCall
  cases found : Function.ofName? name with
  | none => rfl
  | some f =>
    have apart (g : Trig) : f ≠ .trig g := by
      rintro rfl
      exact other g (Function.name_of_ofName? found).symm
    simp only [Function.apply_angles apart a b]

/-- A name that is not called is passed over, unless it is that of a function. -/
theorem name_solves (free : FunctionsFree bindings) (nonempty : x ≠ []) (letters : Letters x) :
    (∃ e : Failure, ∀ angles done t, startsWith Char.isAlpha t = false → argument? t = none →
      (solveCalls ⟨bindings, angles⟩ done (x ++ t)).outcome = .error e) ∨
    (Function.ofName? x = none ∧ ∀ angles done t, startsWith Char.isAlpha t = false →
      argument? t = none → (solveCalls ⟨bindings, angles⟩ done (x ++ t)).outcome =
        (solveCalls ⟨bindings, angles⟩ (done ++ x) t).outcome) := by
  have named (angles : AngleMode) (done t : Text) (stop : startsWith Char.isAlpha t = false)
      (missed : argument? t = none) : solveCalls ⟨bindings, angles⟩ done ([] ++ (x ++ t)) = _ :=
    solveCalls_of_name nofun nonempty letters stop missed
  cases found : Function.ofName? x with
  | some f =>
    refine .inl ⟨.fault (.missingArgument x), fun angles done t stop missed => ?_⟩
    have call := named angles done t stop missed
    have unbound := free f
    rw [Function.name_of_ofName? found] at unbound
    rw [List.nil_append, found] at call
    rw [call]
    simp only [Option.isSome_some, unbound, Bool.not_false, Bool.and_self, if_true]
    rfl
  | none =>
    refine .inr ⟨rfl, fun angles done t stop missed => ?_⟩
    have call := named angles done t stop missed
    rw [List.nil_append, List.append_nil, found] at call
    rw [call]
    rfl

/-- A call of another function fails in both units, or gives way to the same number. -/
theorem call_solves (nonempty : x ≠ []) (letters : Letters x) (other : NoTrig x)
    (stop : ∀ t, Ends t → startsWith Char.isAlpha (o ++ t) = false)
    (found : ∀ t, Ends t → argument? (o ++ t) = some (argument, t)) :
    SolvesAlike bindings (x ++ o) := by
  cases solved : solveCall ⟨bindings, .degrees⟩ x argument with
  | error e =>
    refine .inl ⟨e, fun angles done t ends => ?_⟩
    have call : (solveCalls ⟨bindings, angles⟩ done ([] ++ (x ++ (o ++ t)))).outcome = _ :=
      solveCalls_of_call nofun nonempty letters (stop t ends) (found t ends)
    rw [List.nil_append, solveCall_angles other angles .degrees, solved] at call
    rw [List.append_assoc, call]
    rfl
  | ok y =>
    refine .inr ⟨plain y, isQuiet_plain (solveCall_number solved), fun angles => ?_⟩
    rw [solveCall_angles other .degrees angles] at solved
    exact callsLeave_of_argument nonempty letters stop found solved

theorem callFree_letters (letters : Letters x) : CallFree name (x ++ t) ↔ CallFree (name ++ x) t := by
  induction x generalizing name with
  | nil => rw [List.nil_append, List.append_nil]
  | cons c x ih =>
    obtain ⟨letter, rest⟩ := List.forall_mem_cons.1 letters
    rw [List.cons_append, callFree_letter letter, ih rest, List.append_assoc]
    rfl

/-- What holds of a text with a name in front, and of the text without it. -/
theorem CallFree.behind (h : CallFree x t) (stop : startsWith Char.isAlpha t = false) :
    (startsWith isArgumentChar t = true → Function.ofName? x = none) ∧ CallFree [] t := by
  cases t with
  | nil => exact ⟨nofun, trivial⟩
  | cons c t =>
    have other : c.isAlpha = false := stop
    obtain ⟨apart, rest⟩ := (callFree_other other).1 h
    exact ⟨apart, (callFree_other other).2 ⟨fun _ => ofName?_nil, rest⟩⟩

theorem CallFree.of_letterless (h : CallFree [] (u ++ t)) (letterless : Letterless u) :
    CallFree [] t := by
  induction u with
  | nil => exact h
  | cons c u ih =>
    obtain ⟨other, rest⟩ := List.forall_mem_cons.1 letterless
    exact ih ((callFree_other other).1 h).2 rest

/-- An argument without marks begins with a digit or a point. -/
theorem argument?_isSome (unmarked : startsWith (· == openMark) t = false) :
    (argument? t).isSome = startsWith isArgumentChar t := by
  cases t with
  | nil => rfl
  | cons c t =>
    have other : c ≠ openMark := by simpa [startsWith] using unmarked
    rw [argument?_of_unmarked other]
    split
    next starts =>
      rw [starts]
      rfl
    next stops => simpa using stops

theorem numberless_of_missed (missed : argument? t = none) : startsWith isArgumentChar t = false := by
  cases t with
  | nil => rfl
  | cons c t =>
    by_cases marked : c = openMark
    · rw [marked]
      rfl
    · have same := argument?_isSome (t := c :: t) (beq_false_of_ne marked)
      rwa [missed, eq_comm] at same

/-- A closing mark behind a text without marks adds nothing to it. -/
theorem startsWith_closed {kind : Char → Bool} (other : kind closeMark = false) (t u : Text) :
    startsWith kind (t ++ closeMark :: u) = startsWith kind t := by
  cases t with
  | nil => exact other
  | cons c t => rfl

theorem startsWith_openMark (unmarked : openMark ∉ t) : startsWith (· == openMark) t = false := by
  cases t with
  | nil => rfl
  | cons c t =>
    simp only [List.mem_cons, not_or] at unmarked
    exact beq_false_of_ne (Ne.symm unmarked.1)

/-- What stands behind the closing mark does not matter for an argument before it. -/
theorem argument?_closed (unmarked : openMark ∉ t) (u : Text) :
    (argument? (t ++ closeMark :: u)).isSome = (argument? t).isSome := by
  have whole := startsWith_openMark unmarked
  rw [argument?_isSome whole, argument?_isSome (by rw [startsWith_closed (by decide), whole]),
    startsWith_closed (by decide)]

/-- A name that is not called leads on to what stands behind it. -/
theorem path_behind_name (other : Function.ofName? name = none)
    (stop : startsWith Char.isAlpha t = false) (missed : argument? t = none)
    (unmarked : openMark ∉ t ∧ closeMark ∉ t)
    (rest : ∃ spot', Path .free t spot' ∧ Function.ofName? spot'.name = none) :
    ∃ spot', Path (.row marked name) t spot' ∧ Function.ofName? spot'.name = none := by
  cases t with
  | nil => exact ⟨_, .nil _, other⟩
  | cons c t =>
    obtain ⟨last, path, quiet⟩ := rest
    have numberless := argument?_isSome (startsWith_openMark unmarked.1)
    rw [missed] at numberless
    have bare : isOperandChar c = false := by
      have letter : c.isAlpha = false := stop
      have digit : isArgumentChar c = false := numberless.symm
      rw [isOperandChar, letter, Bool.or_false]
      exact digit
    simp only [List.mem_cons, not_or] at unmarked
    have between : isBetween c = true :=
      isBetween_iff.2 ⟨bare, Ne.symm unmarked.1.1, Ne.symm unmarked.2.1⟩
    obtain ⟨middle, step, path⟩ := path_cons.1 path
    obtain ⟨rfl, _⟩ := step.of_between between
    exact ⟨last, .cons (.between between other rfl) path, quiet⟩

/-- The calls in the value of a group, as it stands in front of its closing mark, fail; or there are
none and no name in it is that of a function. The induction is along the names of the value. -/
theorem content_solves (free : FunctionsFree bindings) (calls : CallFree [] t)
    (unmarked : openMark ∉ t ∧ closeMark ∉ t) :
    (∃ e : Failure, ∀ angles done u,
      (solveCalls ⟨bindings, angles⟩ done (t ++ closeMark :: u)).outcome = .error e) ∨
    ((∀ angles done u, (solveCalls ⟨bindings, angles⟩ done (t ++ closeMark :: u)).outcome =
        (solveCalls ⟨bindings, angles⟩ (done ++ t) (closeMark :: u)).outcome) ∧
      ∀ spot marked, spot.Begins marked →
        ∃ spot', Path spot t spot' ∧ Function.ofName? spot'.name = none) := by
  induction t using calls_induction with
  | letterless t letterless =>
    refine .inr ⟨fun angles done u => solveCalls_append letterless done _, fun spot marked begins => ?_⟩
    obtain ⟨spot', _, path, begins'⟩ := begins.letterless_path letterless unmarked
    exact ⟨spot', path, by rw [begins'.name, ofName?_nil]⟩
  | named p name t letterless nonempty letters stop missed ih =>
    simp only [List.mem_append, not_or] at unmarked
    have inner : openMark ∉ t ∧ closeMark ∉ t := ⟨unmarked.1.2.2, unmarked.2.2.2⟩
    have behind := ((callFree_letters letters).1 (calls.of_letterless letterless)).behind stop
    have stop' (u : Text) : startsWith Char.isAlpha (t ++ closeMark :: u) = false := by
      rw [startsWith_closed (by decide), stop]
    have missed' (u : Text) : argument? (t ++ closeMark :: u) = none := by
      have same := argument?_closed inner.1 u
      rw [missed] at same
      simpa using same
    have front (angles : AngleMode) (done u : Text) :
        (solveCalls ⟨bindings, angles⟩ done (p ++ (name ++ t) ++ closeMark :: u)).outcome =
          (solveCalls ⟨bindings, angles⟩ (done ++ p) (name ++ (t ++ closeMark :: u))).outcome := by
      rw [List.append_assoc, List.append_assoc, solveCalls_append letterless]
    rcases name_solves free nonempty letters with ⟨e, fails⟩ | ⟨other, passes⟩
    · exact .inl ⟨e, fun angles done u => by rw [front, fails _ _ _ (stop' u) (missed' u)]⟩
    rcases ih behind.2 inner with ⟨e, fails⟩ | ⟨same, paths⟩
    · exact .inl ⟨e, fun angles done u => by
        rw [front, passes _ _ _ (stop' u) (missed' u), fails]⟩
    refine .inr ⟨fun angles done u => ?_, fun spot marked begins => ?_⟩
    · rw [front, passes _ _ _ (stop' u) (missed' u), same]
      simp only [List.append_assoc]
    · obtain ⟨middle, marked', first, begins'⟩ :=
        begins.letterless_path letterless ⟨unmarked.1.1, unmarked.2.1⟩
      obtain ⟨last, path, quiet⟩ :=
        path_behind_name other stop missed inner (paths .free false .free)
      refine ⟨last, path_append.2 ⟨middle, first, path_append.2 ⟨_, ?_, path⟩⟩, quiet⟩
      exact begins'.name_path nonempty letters
  | called p name t argument tail letterless nonempty letters stop found _ _ =>
    simp only [List.mem_append, not_or] at unmarked
    have behind := ((callFree_letters letters).1 (calls.of_letterless letterless)).behind stop
    have number := argument?_isSome (startsWith_openMark unmarked.1.2.2)
    rw [found] at number
    have other : Function.ofName? name = none := behind.1 number.symm
    refine .inl ⟨.fault (.unknownFunction name), fun angles done u => ?_⟩
    have stop' : startsWith Char.isAlpha (t ++ closeMark :: u) = false := by
      rw [startsWith_closed (by decide), stop]
    have same := argument?_closed unmarked.1.2.2 u
    rw [found] at same
    obtain ⟨⟨argument', tail'⟩, found'⟩ := Option.isSome_iff_exists.1 same
    have call : (solveCalls ⟨bindings, angles⟩ done (p ++ (name ++ (t ++ closeMark :: u)))).outcome =
        _ := solveCalls_of_call letterless nonempty letters stop' found'
    rw [List.append_assoc, List.append_assoc, call, solveCall, other]
    rfl

theorem unmarked_bareOperand (t : Text) : openMark ∉ bareOperand t ∧ closeMark ∉ bareOperand t :=
  ⟨not_mem_bareOperand (.inl rfl) t, not_mem_bareOperand (.inr rfl) t⟩

/-- The value of a group fails when its calls are solved, or it stays and has none. -/
theorem markValue_solves (free : FunctionsFree bindings) (content : IsContent (bareOperand v)) :
    (∃ e : Failure, ∀ angles done t,
      (solveCalls ⟨bindings, angles⟩ done (markValue v ++ t)).outcome = .error e) ∨
    ((∀ angles done t, (solveCalls ⟨bindings, angles⟩ done (markValue v ++ t)).outcome =
        (solveCalls ⟨bindings, angles⟩ (done ++ markValue v) t).outcome) ∧
      ∀ spot, Step spot openMark .opened → Path spot (markValue v) .closed) := by
  have mark (c : Char) (other : c.isAlpha = false) : Letterless [c] :=
    List.forall_mem_singleton.2 other
  have shape (t : Text) : markValue v ++ t = [openMark] ++ (bareOperand v ++ closeMark :: t) := by
    simp [markValue]
  rcases content_solves free content.calls (unmarked_bareOperand v) with ⟨e, fails⟩ | ⟨same, paths⟩
  · refine .inl ⟨e, fun angles done t => ?_⟩
    rw [shape, solveCalls_append (mark openMark (by decide)), fails]
  refine .inr ⟨fun angles done t => ?_, fun spot step => ?_⟩
  · have closes (done : Text) : (solveCalls ⟨bindings, angles⟩ done ([closeMark] ++ t)).outcome =
        _ := solveCalls_append (mark closeMark (by decide)) done t
    rw [List.singleton_append] at closes
    rw [shape, solveCalls_append (mark openMark (by decide)), same, closes]
    simp [markValue]
  · obtain ⟨last, path, quiet⟩ := paths .opened true .opened
    obtain ⟨marked, name, rfl⟩ := path.row content.ends
    have closes : Path (.row marked name) [closeMark] .closed := path_singleton.2 (.leave quiet)
    exact .cons step (path_append.2 ⟨_, path, closes⟩)

theorem IsUnitless.solves (h : IsUnitless o) (free : FunctionsFree bindings) :
    SolvesAlike bindings o := by
  cases h with
  | literal l =>
    have letterless : Letterless l.text := fun _ member => not_isAlpha_of_isArgumentChar (l.mem_text member)
    exact .inr ⟨l.text, isQuiet_digits l.isRow letterless,
      fun _ done t _ => solveCalls_append letterless done t⟩
  | name nonempty letters =>
    rcases name_solves free nonempty letters with ⟨e, fails⟩ | ⟨other, passes⟩
    · exact .inl ⟨e, fun angles done t ends =>
        fails angles done t ends.startsWith_isAlpha ends.argument?⟩
    · exact .inr ⟨o, isQuiet_name nonempty letters other, fun angles done t ends =>
        passes angles done t ends.startsWith_isAlpha ends.argument?⟩
  | applied l nonempty letters other =>
    exact call_solves nonempty letters other (fun t _ => l.not_startsWith_isAlpha t) fun t ends =>
      l.argument? ends
  | @marked x v letters other content =>
    by_cases empty : x = []
    · subst empty
      rcases markValue_solves free content with ⟨e, fails⟩ | ⟨same, path⟩
      · exact .inl ⟨e, fun angles done t _ => fails angles done t⟩
      · exact .inr ⟨_, ⟨_, path .free .enter, .closed⟩, fun angles done t _ => same angles done t⟩
    rcases argument?_markValue_cases v with found | missed
    · exact call_solves empty letters other (fun _ _ => rfl) fun t _ => found t
    rcases name_solves free empty letters with ⟨e, fails⟩ | ⟨notFunction, passes⟩
    · refine .inl ⟨e, fun angles done t _ => ?_⟩
      rw [List.append_assoc, fails _ _ _ rfl (missed t)]
    rcases markValue_solves free content with ⟨e, fails⟩ | ⟨same, path⟩
    · refine .inl ⟨e, fun angles done t _ => ?_⟩
      rw [List.append_assoc, passes _ _ _ rfl (missed t), fails]
    · have first : Path .free x (.row false x) := Spot.Begins.free.name_path empty letters
      refine .inr ⟨x ++ markValue v, ⟨.closed, path_append.2 ⟨_, first, ?_⟩, .closed⟩,
        fun angles done t _ => ?_⟩
      · exact path _ (.behind notFunction)
      · rw [List.append_assoc, passes _ _ _ rfl (missed t), same, List.append_assoc]

/-- Solving the calls of a chain fails in both units, or leaves the same segment without calls. -/
theorem chain_solves (free : FunctionsFree bindings) (operand : IsUnitless o) (sign : IsLead lead)
    (joined : ∀ l ∈ ls, IsJointOf IsUnitless l) :
    (∃ e : Failure, ∀ angles done,
      (solveCalls ⟨bindings, angles⟩ done (lead ++ (o ++ linksText ls))).outcome = .error e) ∨
    ∃ u, IsQuiet u ∧ ∀ angles done,
      (solveCalls ⟨bindings, angles⟩ done (lead ++ (o ++ linksText ls))).outcome =
        .ok (done ++ u) := by
  induction ls generalizing lead o with
  | nil =>
    rcases operand.solves free with ⟨e, fails⟩ | ⟨o', quiet, leaves⟩
    · refine .inl ⟨e, fun angles done => ?_⟩
      rw [solveCalls_append sign.not_isAlpha]
      exact fails _ _ [] (.inl rfl)
    · refine .inr ⟨lead ++ o', quiet.signed sign.signs, fun angles done => ?_⟩
      rw [solveCalls_append sign.not_isAlpha, linksText, leaves angles _ [] (.inl rfl),
        solveCalls_of_letterless letterless_nil, List.append_nil, List.append_assoc]
      rfl
  | cons l ls ih =>
    obtain ⟨next, rest⟩ := List.forall_mem_cons.1 joined
    obtain ⟨operator, lead', sign', shape⟩ := next.operator
    have ends := ends_of_joint joined
    rcases operand.solves free with ⟨e, fails⟩ | ⟨o', quiet, leaves⟩
    · refine .inl ⟨e, fun angles done => ?_⟩
      rw [solveCalls_append sign.not_isAlpha]
      exact fails _ _ _ ends
    have text : linksText (l :: ls) = [operator.symbol] ++ (lead' ++ (l.operand ++ linksText ls)) := by
      rw [linksText_cons, Link.body, List.append_assoc, ← List.append_assoc, shape]
      rfl
    have symbol := letterless_symbol operator
    have front (angles : AngleMode) (done : Text) :
        (solveCalls ⟨bindings, angles⟩ done (lead ++ (o ++ linksText (l :: ls)))).outcome =
          (solveCalls ⟨bindings, angles⟩ (done ++ lead ++ o' ++ [operator.symbol])
            (lead' ++ (l.operand ++ linksText ls))).outcome := by
      rw [solveCalls_append sign.not_isAlpha, leaves angles _ _ ends, text, solveCalls_append symbol]
    rcases ih next.operand sign' rest with ⟨e, fails⟩ | ⟨u, quiet', value⟩
    · exact .inl ⟨e, fun angles done => by rw [front, fails]⟩
    · refine .inr ⟨lead ++ o' ++ operator.symbol :: u, (quiet.signed sign.signs).join quiet' operator,
        fun angles done => ?_⟩
      rw [front, value]
      simp

theorem solveRank_angles (a b : AngleMode) (rank : Rank) (t : Text) :
    (solveRank ⟨bindings, a⟩ rank t).outcome = (solveRank ⟨bindings, b⟩ rank t).outcome := by
  fun_induction solveRank ⟨bindings, a⟩ rank t with
  | case1 t missed => rw [solveRank_of_none missed, Traced.outcome_pure]
  | case2 t before op after found ih =>
    have same : op.solve ⟨bindings, b⟩ = op.solve ⟨bindings, a⟩ := rfl
    rw [Traced.outcome_bind, solveRank_of_some found, same, Traced.outcome_ofExcept]
    cases op.solve ⟨bindings, a⟩ with
    | error e => rfl
    | ok y => exact ih y

theorem solveOperations_angles (a b : AngleMode) (t : Text) :
    (solveOperations ⟨bindings, a⟩ t).outcome = (solveOperations ⟨bindings, b⟩ t).outcome := by
  simp only [solveOperations_outcome, solveRank_angles a b]

/-- A chain comes to the same in both units: to a value without calls, if it has one. -/
theorem IsChainOf.solves (h : IsChainOf IsUnitless ls) (free : FunctionsFree bindings) :
    ∃ result, (∀ angles, (solveSegment ⟨bindings, angles⟩ (linksText ls)).outcome = result) ∧
      ∀ v, result = .ok v → ∃ u, v = markValue u ∧ IsContent (bareOperand u) := by
  obtain ⟨l, rest, rfl, start⟩ := h.exists_cons
  have text : linksText (l :: rest) = l.lead ++ (l.operand ++ linksText rest) := by
    rw [linksText_cons, Link.symbol_of_none start, Link.body, List.append_assoc, List.nil_append]
  rcases chain_solves free (h.operand l (.head _)) (h.lead l (.head _)) h.joined with
    ⟨e, fails⟩ | ⟨u, quiet, value⟩
  · refine ⟨.error e, fun angles => ?_, fun v succeeds => ?_⟩
    · rw [solveSegment_outcome, text, fails]
      rfl
    · contradiction
  · let operated := (Reckoner.solveOperations ⟨bindings, .degrees⟩ u).outcome
    refine ⟨(operated.mapError Failure.fault).map markValue, fun angles => ?_, fun v succeeds => ?_⟩
    · rw [solveSegment_outcome, text, value, List.nil_append]
      simp only [Except.bind, solveOperations_angles angles .degrees, operated]
    · obtain ⟨w, solved, rfl⟩ := map_eq_ok succeeds
      exact ⟨w, rfl, (quiet.solveOperations (mapError_eq_ok.1 solved)).content⟩

/-- A name in front of a group that asks for no unit of angles, or none. -/
def IsUnitlessCall (x : Text) : Prop := Letters x ∧ NoTrig x

theorem segmentsAgree_unitless (free : FunctionsFree bindings) :
    SegmentsAgree (fun context => context.bindings = bindings) IsUnitless IsUnitlessCall
      fun _ => True := by
  refine ⟨fun ls chain => ?_⟩
  obtain ⟨result, same, value⟩ := chain.solves free
  refine ⟨result, fun context among => ?_, fun _ _ => trivial, fun v x succeeds call => ?_⟩
  · obtain ⟨_, angles⟩ := context
    subst among
    exact same angles
  · obtain ⟨u, rfl, content⟩ := value v succeeds
    exact .marked call.1 call.2 content

/-- Where no name stands behind a group and none is that of a trigonometric function, an accepted
expression is written with operands that ask for no unit of angles. -/
theorem Accepted.isWritten_unitless (h : Accepted t) (names : NamesApart t)
    (other : ∀ f : Trig, ¬ IsRun Char.isAlpha t f.name) :
    Written (fun o => IsUnitless o ∧ '(' ∉ o ∧ ')' ∉ o) IsUnitlessCall .whole t := by
  have noTrig {p x q : Text} (shape : t = p ++ (x ++ q)) (leads : Leads p) (nonempty : x ≠ [])
      (letters : Letters x) (stop : ∀ c ∈ q.head?, c.isAlpha = false) : NoTrig x := by
    rintro f rfl
    exact other f ⟨nonempty, letters, p, q, shape, leads.not_isAlpha, stop⟩
  refine (h.isWritten names).restrict (fun p o q shape leads atom => ?_)
    fun p x q shape leads letters => ⟨letters, ?_⟩
  · refine ⟨?_, atom.flat⟩
    cases atom with
    | literal l => exact .literal l
    | name nonempty letters => exact .name nonempty letters
    | @applied x l nonempty letters =>
      rw [List.append_assoc] at shape
      refine .applied l nonempty letters (noTrig shape leads nonempty letters fun c head => ?_)
      obtain ⟨d, s, text, first⟩ := l.exists_cons
      rw [text] at head
      cases head
      exact not_isAlpha_of_isArgumentChar first
  · by_cases empty : x = []
    · subst empty
      intro f none
      exact name_ne_nil (.trig f) none.symm
    · refine noTrig shape leads empty letters fun c head => ?_
      cases head
      decide

/-- An expression without trigonometric functions comes to the same in both units. -/
theorem solveExpression_angles (free : FunctionsFree bindings) (h : Accepted t)
    (names : NamesApart t) (other : ∀ f : Trig, ¬ IsRun Char.isAlpha t f.name) (a b : AngleMode) :
    (solveExpression ⟨bindings, a⟩ t).outcome = (solveExpression ⟨bindings, b⟩ t).outcome := by
  have same : (solveGroups ⟨bindings, a⟩ [] [] (t ++ [')'])).outcome =
      (solveGroups ⟨bindings, b⟩ [] [] (t ++ [')'])).outcome :=
    (h.isWritten_unitless names other).solveGroups_alike (segmentsAgree_unitless free)
      (fun _ atom => atom) (fun _ call => flat_of_letters call.1) rfl rfl
  rw [solveExpression_outcome, solveExpression_outcome, same]
  rfl

end Reckoner
