import Reckoner.Proofs.Evaluation.Joints

set_option autoImplicit false

namespace Reckoner

open Double

variable {context : Context} {rank : Rank} {operator : Operator} {a lead o t u w s b back : Text}
  {outer inner n : Nat} {p : Slot} {c : Char}

/-- The last character of an operand. -/
def EndsOperand (t : Text) : Prop :=
  ∃ v c, t = v ++ [c] ∧ isSign c = false ∧ ∀ p : Place, p.step c = .other

/-- A segment ends with an operand. -/
theorem Slot.Completes.ends (h : Slot.Completes outer inner (.free n) t) : EndsOperand t := by
  rcases List.eq_nil_or_concat t with rfl | ⟨v, c, rfl⟩
  · exact absurd h (not_completes_nil fun _ => Slot.noConfusion)
  · rw [List.concat_eq_append] at *
    obtain ⟨q, _, last⟩ := completes_append.1 h
    obtain ⟨q', next, closed, ⟨⟩⟩ := completes_cons.1 last
    cases next with
    | operand operand =>
      exact ⟨v, c, rfl, isSign_of_isOperandChar operand, fun p => p.step_operandChar operand⟩
    | leave => exact ⟨v, closeMark, rfl, rfl, fun p => by cases p <;> rfl⟩

/-- Behind an operand signs are reduced on their own. -/
theorem EndsOperand.reduceSigns_append (h : EndsOperand a) (u : Text) :
    reduceSigns (a ++ u) = reduceSigns a ++ reduceSigns u := by
  obtain ⟨v, c, rfl, notSign, _⟩ := h
  have alone := reduceSigns_append_cons notSign v []
  rw [List.append_assoc, List.singleton_append, reduceSigns_append_cons notSign, alone,
    List.append_assoc]
  rfl

theorem Ends.reduceSigns (h : Ends t) : Ends (Reckoner.reduceSigns t) := by
  rcases h with rfl | ⟨operator, u, rfl⟩
  · exact .inl rfl
  · by_cases sum : operator.rank = .sum
    · have sign := Operator.isSign_symbol_iff.2 sum
      have starts : startsWith isSign (Reckoner.reduceSigns (operator.symbol :: u)) = true := by
        rw [startsWith_reduceSigns]
        exact sign
      cases reduced : Reckoner.reduceSigns (operator.symbol :: u) with
      | nil => exact .inl rfl
      | cons c v =>
        rw [reduced] at starts
        obtain ⟨operator', _, rfl⟩ := exists_operator_of_isSign starts
        exact .inr ⟨operator', v, rfl⟩
    · rw [reduceSigns_cons, attachSign_of_not_isSign (Operator.not_isSign_symbol sum)]
      exact .inr ⟨operator, _, rfl⟩

theorem Slot.Completes.behind_operand (h : Slot.Completes outer inner p (o ++ t)) (operand : IsOperand o) :
    Slot.Completes outer inner (.ended false) t := by
  cases operand with
  | row row =>
    obtain ⟨q, run, rest⟩ := completes_append.1 h
    rwa [run.of_row row] at rest
  | @marked lead r _ row =>
    have shape : openMark :: (lead ++ (r ++ [closeMark])) ++ t =
        openMark :: lead ++ (r ++ ([closeMark] ++ t)) := by simp
    rw [shape] at h
    obtain ⟨_, _, rest⟩ := completes_append.1 h
    exact rest.of_closed row (.inl rfl)

def Operation.text (operation : Operation) : Text :=
  operation.left ++ operation.operator.symbol :: operation.right

/-- An operation of the first rank in which there are no calls, and the value of which is not
negative, if it has one. -/
structure IsFirst (context : Context) (operation : Operation) : Prop where
  left : IsOperand operation.left
  right : IsOperand operation.right
  rank : operation.operator.rank = .power
  letterless : Letterless operation.text
  value : ∀ x, operation.solve context = .ok x → ¬ x < 0

/-- What stands in front of an operand in its segment: a sign at most, or a segment of its own
and one more operator of another rank, with a sign that belongs to the operand. -/
inductive Fore (outer inner : Nat) (rank : Rank) : Text → Prop
  | lead {lead : Text} (sign : IsLead lead) : Fore outer inner rank lead
  | joint {a lead : Text} {operator : Operator} (before : Slot.Completes outer inner (.free 0) a)
    (other : operator.rank ≠ rank) (sign : IsLead lead) (single : operator.rank = .sum → lead = []) :
    Fore outer inner rank (a ++ operator.symbol :: lead)

variable {operation : Operation} {x : Float}

/-- An operand can be exchanged there. -/
theorem Fore.admits (h : Fore outer inner rank w) : (Place.start.run w).admits = true := by
  cases h with
  | lead sign => rcases sign with rfl | rfl | rfl <;> rfl
  | @joint a lead operator before _ sign single =>
    obtain ⟨v, c, rfl, _, place⟩ := before.ends
    have behind : Place.start.run (v ++ [c] ++ operator.symbol :: lead) =
        (Place.other.step operator.symbol).run lead := by
      rw [Place.run_append, Place.run_append]
      change Place.run (((Place.start.run v).step c).step operator.symbol) lead = _
      rw [place]
    rw [behind]
    cases operator with
    | add =>
      rw [single rfl]
      rfl
    | subtract =>
      rw [single rfl]
      rfl
    | _ => rcases sign with rfl | rfl | rfl <;> rfl

namespace IsFirst

variable (first : IsFirst context operation)

include first

/-- The first operation is found where none is found before it. -/
theorem findOperation? (stop : Stops back) :
    Reckoner.findOperation? .power (operation.text ++ back) = some ([], operation, back) := by
  have right : rightOperand? ([] ++ (operation.right ++ back)) = _ :=
    first.right.rightOperand? stop isLead_nil
  have following : follow? .power (operation.operator.symbol :: (operation.right ++ back)) = _ :=
    follow?_symbol right
  rw [if_pos first.rank] at following
  have here := operationAt?_of_leftOperand?
    (first.left.leftOperand? (stops_symbol operation.operator (operation.right ++ back)) .power)
  rw [following] at here
  have text : operation.text ++ back =
      operation.left ++ operation.operator.symbol :: (operation.right ++ back) := by
    simp [Operation.text]
  rw [text]
  exact findOperation?_of_found (by simp) here

theorem reduceSigns_append (t u : Text) :
    reduceSigns (t ++ (operation.text ++ u)) = reduceSigns t ++ (operation.text ++ reduceSigns u) := by
  have product : operation.operator.rank ≠ .sum := first.rank ▸ by decide
  have notSign := Operator.not_isSign_symbol product
  have right : reduceSigns ([] ++ (operation.right ++ u)) = _ := first.right.reduceSigns_append [] u
  unfold Operation.text
  rw [List.append_assoc, List.cons_append, first.left.reduceSigns_append, reduceSigns_cons]
  rw [List.nil_append, reduceSigns_nil, List.nil_append] at right
  rw [right, attachSign_of_not_isSign notSign, List.append_assoc, List.cons_append]

/-- A row can stand in the place of the operation. -/
theorem completes_row (h : Slot.Completes outer inner p (w ++ (operation.text ++ back))) (row : IsRow o) :
    Slot.Completes outer inner p (w ++ (o ++ back)) := by
  obtain ⟨q, run, rest⟩ := Slot.completes_append.1 h
  rw [Operation.text, List.append_assoc, List.cons_append] at rest
  obtain ⟨_, _, rest⟩ := Slot.completes_cons.1 (rest.behind_operand first.left)
  exact Slot.completes_append.2 ⟨q, run, Slot.completes_append.2
    ⟨_, Slot.run_row row q, rest.behind_operand first.right⟩⟩

end IsFirst

/-- The first rank begins with the operation that is found first. -/
theorem solveOperations_of_found {before after : Text}
    (found : findOperation? .power t = some (before, operation, after)) :
    (solveOperations context t).outcome = (operation.solve context).bind fun x =>
      (solveOperations context (reduceSigns (before ++ plain x ++ after))).outcome := by
  rw [solveOperations_outcome, solveRank_of_some found]
  cases operation.solve context with
  | error e => rfl
  | ok x =>
    simp only [Except.bind]
    rw [solveOperations_outcome]
    rfl

/-- What begins with two signs in front of an operand does so without the operand. -/
theorem beginsSigned_of_append (operand : IsOperand o) (signed : BeginsSigned (w ++ (o ++ back))) :
    BeginsSigned w := by
  obtain ⟨c, d, u, shape, hc, hd⟩ := signed
  have unsigned := operand.unsigned back
  match w, shape with
  | [], shape =>
    have text : o ++ back = c :: d :: u := shape
    rw [text] at unsigned
    exact absurd (hc.symm.trans unsigned) (by decide)
  | [_], shape =>
    have text : o ++ back = d :: u := (List.cons.inj shape).2
    rw [text] at unsigned
    exact absurd (hd.symm.trans unsigned) (by decide)
  | _ :: _ :: w, shape =>
    obtain ⟨rfl, rest⟩ := List.cons.inj shape
    obtain ⟨rfl, _⟩ := List.cons.inj rest
    exact ⟨_, _, w, rfl, hc, hd⟩

/-- Unless solving the operation fails, solving the operations of the text around it gives the same
with its value in marks in its place. -/
def SolvedFirst (context : Context) (operation : Operation) (w back : Text) : Prop :=
  Matches (fun t u => markValue t = markValue u)
    (solveOperations context (w ++ (operation.text ++ back))).outcome
    ((operation.solve context).bind fun x =>
      (solveOperations context (w ++ (markValue (Double.plain x) ++ back))).outcome)

/-- Where no operation of the first rank is found in front of it, the operation is solved first. -/
theorem IsFirst.solve_next (first : IsFirst context operation) (fore : Fore 2 1 .power w)
    (missed : ∀ u, Reckoner.findOperation? .power (w ++ u) =
      behind w (Reckoner.findOperation? .power u))
    (ends : Ends back) (whole : Slot.Completes 2 1 (.free 0) (w ++ (operation.text ++ back)))
    (single : ¬ BeginsSigned w) :
    SolvedFirst context operation w back := by
  unfold SolvedFirst
  have found : Reckoner.findOperation? .power (w ++ (operation.text ++ back)) =
      some (w, operation, back) := by
    rw [missed, first.findOperation? ends.stops]
    simp [behind]
  rw [solveOperations_of_found found]
  refine (matches_refl _).with_left.bind ?_
  rintro x _ ⟨value, rfl⟩
  have number := Operation.solve_number value
  have row := (isTame_sizeText (magnitude x)).row
  rw [plain_of_nonnegative number (first.value x value), List.append_assoc]
  have signs : Matches _ (solveOperations context _).outcome _ :=
    Parts.solve_reduced ((first.completes_row whole row).parts (fun _ => Slot.noConfusion) Slot.noConfusion)
      fun signed => single (beginsSigned_of_append (.row row) signed)
  -- The value in marks differs from the value in its marks only.
  obtain ⟨q, rest⟩ : ∃ q, Swapped (Only (sizeText (magnitude x))
      (markValue (sizeText (magnitude x)))) .swapped back back q := swapped_back ends
  have exchanged := (Swapped.same w Place.noConfusion).append
    (.swap fore.admits ⟨rfl, rfl⟩ rest : Swapped _ _ (_ ++ back) (_ ++ back) q)
  refine (signs.symm.trans (solveOperations_marked number exchanged)).mono ?_
  rintro _ _ ⟨_, same, same'⟩
  exact same.symm.trans same'

theorem reduceSigns_joint (sign : IsLead lead) (single : operator.rank = .sum → lead = []) :
    reduceSigns (operator.symbol :: lead) = operator.symbol :: lead := by
  by_cases sum : operator.rank = .sum
  · rw [single sum]
    rfl
  · rw [reduceSigns_cons, sign.reduced, attachSign_of_not_isSign (Operator.not_isSign_symbol sum)]

/-- Signs are reduced in front of an operator and behind the operand, or more, that follows it. -/
theorem EndsOperand.reduceSigns_around (h : EndsOperand (reduceSigns t))
    (joined : reduceSigns (operator.symbol :: lead) = operator.symbol :: lead)
    (kept : ∀ s, reduceSigns (s ++ (o ++ u)) = reduceSigns s ++ (o ++ reduceSigns u)) :
    reduceSigns (t ++ operator.symbol :: (lead ++ (o ++ u))) =
      reduceSigns t ++ operator.symbol :: lead ++ (o ++ reduceSigns u) := by
  rw [← reduceSigns_reduceSigns_append, h.reduceSigns_append, reduceSigns_reduceSigns,
    ← List.cons_append, kept, joined]
  exact (List.append_assoc ..).symm

/-- Where another operation of the rank is found in front, that one is solved in both texts, and the
operation stays where it is. -/
theorem IsFirst.solve_found (first : IsFirst context operation) {operation' : Operation}
    {before after : Text} (fore : Slot.Completes 2 1 (.free 0) a) (other : operator.rank ≠ .power)
    (joined : reduceSigns (operator.symbol :: lead) = operator.symbol :: lead)
    (found : Reckoner.findOperation? .power a = some (before, operation', after))
    (next : ∀ v, operation'.solve context = .ok v → SolvedFirst context operation
      (reduceSigns (before ++ Double.plain v ++ after) ++ operator.symbol :: lead) (reduceSigns back)) :
    SolvedFirst context operation (a ++ operator.symbol :: lead) back := by
  have parts : Parts (some 0) a := fore.parts (fun _ => Slot.noConfusion) nofun
  have solved (u : Text) : (solveOperations context (a ++ operator.symbol :: lead ++ u)).outcome = _ :=
    solveOperations_of_found (parts.findOperation?_found (by decide) other found u)
  unfold SolvedFirst
  simp only [solved]
  cases value : operation'.solve context with
  | error e => cases operation.solve context <;> exact .error _ _
  | ok v =>
    have ends := (fore.spliced found (Operation.solve_number value)).ends
    have left := ends.reduceSigns_around joined fun s => first.reduceSigns_append s back
    have right : ((operation.solve context).bind fun x => (solveOperations context (reduceSigns
          (before ++ Double.plain v ++ after ++
            operator.symbol :: (lead ++ (markValue (Double.plain x) ++ back))))).outcome) =
        (operation.solve context).bind fun x => (solveOperations context
          (reduceSigns (before ++ Double.plain v ++ after) ++ operator.symbol :: lead ++
            (markValue (Double.plain x) ++ reduceSigns back))).outcome := by
      cases result : operation.solve context with
      | error e => rfl
      | ok x =>
        have operand := (denotes_markValue_plain context (Operation.solve_number result)).tame.operand
        exact congrArg (fun t => (solveOperations context t).outcome)
          (ends.reduceSigns_around joined fun s => operand.reduceSigns_append s back)
    simp only [Except.bind, ← List.append_assoc (before ++ Double.plain v)] at right ⊢
    rw [left]
    exact right ▸ next v value

/-- An operation of the first rank is solved before all that surrounds it, where the operator in
front of it has another rank. The induction is on the operations of the first rank in front. -/
theorem IsFirst.solve_behind (first : IsFirst context operation)
    (fore : Slot.Completes 2 1 (.free 0) a) (other : operator.rank ≠ .power) (sign : IsLead lead)
    (joint : operator.rank = .sum → lead = []) (ends : Ends back)
    (whole : Slot.Completes 2 1 (.free 0) (a ++ operator.symbol :: lead ++ (operation.text ++ back)))
    (single : ¬ BeginsSigned (a ++ operator.symbol :: lead)) :
    SolvedFirst context operation (a ++ operator.symbol :: lead) back := by
  induction size : operandRuns false a using Nat.strongRecOn generalizing a back with
  | ind n ih =>
  subst size
  have parts : Parts (some 0) a := fore.parts (fun _ => Slot.noConfusion) nofun
  cases front : Reckoner.findOperation? .power a with
  | none =>
    exact first.solve_next (.joint fore other sign joint)
      (parts.findOperation?_missed (by decide) other sign front) ends whole single
  | some found =>
    obtain ⟨before, operation', after⟩ := found
    have joined := reduceSigns_joint sign joint
    refine first.solve_found fore other joined front fun v value => ?_
    have number := Operation.solve_number value
    have fore' := fore.spliced front number
    have whole' := whole.spliced (parts.findOperation?_found (by decide) other front _) number
    rw [← List.append_assoc (before ++ Double.plain v),
      fore'.ends.reduceSigns_around joined fun s => first.reduceSigns_append s back] at whole'
    refine ih _ (operandRuns_solved_lt front v) (fore'.mono (by decide) le_rfl) ends.reduceSigns
      (whole'.mono (by decide) le_rfl) ?_ rfl
    have kept := fore'.ends.reduceSigns_append (operator.symbol :: lead)
    rw [reduceSigns_reduceSigns, joined] at kept
    rw [← kept]
    exact not_beginsSigned_reduceSigns _

theorem IsFirst.solveOperations (first : IsFirst context operation) (fore : Fore 2 1 .power w)
    (ends : Ends back) (whole : Slot.Completes 2 1 (.free 0) (w ++ (operation.text ++ back)))
    (single : ¬ BeginsSigned w) : SolvedFirst context operation w back := by
  cases fore with
  | lead sign =>
    exact first.solve_next (.lead sign) (findOperation?_lead sign (by decide)) ends whole single
  | joint before other sign joint =>
    exact first.solve_behind before other sign joint ends whole single

/-- Two signs stand in front of the first operand, or behind a mark that opens another one. -/
def Oversigned (t : Text) : Prop :=
  BeginsSigned t ∨ ∃ u v, t = u ++ openMark :: v ∧ BeginsSigned v

theorem BeginsSigned.append (h : BeginsSigned t) (u : Text) : BeginsSigned (t ++ u) := by
  obtain ⟨c, d, v, rfl, hc, hd⟩ := h
  exact ⟨c, d, v ++ u, rfl, hc, hd⟩

theorem Oversigned.append (h : Oversigned t) (u : Text) : Oversigned (t ++ u) := by
  rcases h with begins | ⟨v, w, rfl, begins⟩
  · exact .inl (begins.append u)
  · exact .inr ⟨v, w ++ u, List.append_assoc .., begins.append u⟩

theorem Oversigned.exists_sign (h : Oversigned t) : ∃ c ∈ t, isSign c = true := by
  rcases h with ⟨c, _, _, rfl, sign, _⟩ | ⟨u, _, rfl, c, _, _, rfl, sign, _⟩
  · exact ⟨c, .head _, sign⟩
  · exact ⟨c, List.mem_append_right u (.tail _ (.head _)), sign⟩

/-- Where no mark has two signs behind it, there is no place for a second one. The signs that stand
behind the last mark are kept with the text. -/
theorem Slot.Run.single {q : Slot} (run : Slot.Run 2 2 p t q)
    (start : ∀ s, p = .opened s.length → (∀ c ∈ s, isSign c = true) → ¬ BeginsSigned (s ++ t))
    (marks : ∀ u v, t = u ++ openMark :: v → ¬ BeginsSigned v) : Slot.Run 2 1 p t q := by
  induction run with
  | nil p => exact .nil p
  | @cons p r q c t next _ ih =>
    have rest := fun start => ih start fun u v shape => marks (c :: u) v (congrArg (c :: ·) shape)
    have outside (unopened : ∀ n, r ≠ .opened n) : Slot.Run 2 1 r t q :=
      rest fun s same => absurd same (unopened s.length)
    cases next with
    | operand operand => exact .cons (.operand operand) (outside fun _ => Slot.noConfusion)
    | sign sign room => exact .cons (.sign sign room) (outside fun _ => Slot.noConfusion)
    | sum sign => exact .cons (.sum sign) (outside fun _ => Slot.noConfusion)
    | binary binary => exact .cons (.binary binary) (outside fun _ => Slot.noConfusion)
    | leave => exact .cons .leave (outside fun _ => Slot.noConfusion)
    | enter few =>
      refine .cons (.enter few) (rest fun s same _ => ?_)
      cases List.length_eq_zero_iff.1 (Slot.opened.inj same).symm
      exact marks [] t rfl
    | behind =>
      refine .cons .behind (rest fun s same _ => ?_)
      cases List.length_eq_zero_iff.1 (Slot.opened.inj same).symm
      exact marks [] t rfl
    | @inner n _ sign room =>
      rcases n with _ | n
      · refine .cons (.inner sign Nat.one_pos) (rest fun s same signs => ?_)
        obtain ⟨d, rfl⟩ := List.length_eq_one_iff.1 (Slot.opened.inj same).symm
        rintro ⟨_, e, u, shape, _, second⟩
        cases shape
        exact start [] rfl nofun ⟨c, e, u, rfl, sign, second⟩
      · have full : n = 0 := by omega
        subst full
        refine absurd ⟨c, c, t, rfl, sign, sign⟩ (start [c] rfl ?_)
        rintro d (_ | ⟨_, ⟨⟩⟩)
        exact sign

theorem Slot.Completes.single (h : Slot.Completes 2 2 (.free n) t) (few : ¬ Oversigned t) :
    Slot.Completes 2 1 (.free n) t := by
  obtain ⟨closed, run⟩ := h
  exact ⟨closed, run.single (fun _ same => Slot.noConfusion same) fun u v shape begins =>
    few (.inr ⟨u, v, shape, begins⟩)⟩

/-- Solving the calls in front of an operand fails, or it leaves what can stand there. -/
theorem Fore.solveCalls (h : Fore 1 1 rank s) (context : Context) :
    (∃ e, ∀ u, (Reckoner.solveCalls context [] (s ++ u)).outcome = .error e) ∨
      ∃ w, (¬ Oversigned w → Fore 2 1 rank w) ∧ ∀ u,
        (Reckoner.solveCalls context [] (s ++ u)).outcome = (Reckoner.solveCalls context w u).outcome := by
  cases h with
  | lead sign =>
    exact .inr ⟨s, fun _ => .lead sign, fun u => solveCalls_append sign.not_isAlpha [] u⟩
  | @joint a lead operator before other sign single =>
    have silent : Letterless (operator.symbol :: lead) :=
      List.forall_mem_append.2 ⟨letterless_symbol operator, sign.not_isAlpha⟩
    have calls (u : Text) :
        (Reckoner.solveCalls context [] (a ++ operator.symbol :: (lead ++ u))).outcome = _ :=
      before.solveCalls_append operator [] (lead ++ u)
    have text (u : Text) : a ++ operator.symbol :: lead ++ u = a ++ operator.symbol :: (lead ++ u) := by
      simp
    cases front : (Reckoner.solveCalls context [] a).outcome with
    | error e => exact .inl ⟨e, fun u => by rw [text, calls, front]; rfl⟩
    | ok w =>
      refine .inr ⟨w ++ operator.symbol :: lead, fun few => ?_, fun u => ?_⟩
      · have whole := before.solveCalls (.inl (Nat.zero_le 1)) front
        exact .joint (whole.single fun signed => few (signed.append _)) other sign single
      · rw [text, calls, front]
        simp only [Except.bind]
        rw [← List.cons_append, Reckoner.solveCalls_append silent]

/-- Solving the calls behind an operand leaves the operator that follows it. -/
theorem Ends.solveCalls (h : Ends b) (value : (Reckoner.solveCalls context [] b).outcome = .ok t) :
    Ends t := by
  rcases h with rfl | ⟨operator, u, rfl⟩
  · rw [solveCalls_of_letterless letterless_nil] at value
    cases value
    exact .inl rfl
  · have silent := letterless_symbol operator
    have first : (Reckoner.solveCalls context [] ([operator.symbol] ++ u)).outcome = _ :=
      Reckoner.solveCalls_append silent [] u
    rw [List.singleton_append] at first
    rw [first, solveCalls_done] at value
    obtain ⟨v, _, rfl⟩ := map_eq_ok value
    exact .inr ⟨operator, v, rfl⟩

/-- Solving the calls around an operand without calls fails whatever the operand, or it leaves the
same around each. -/
theorem Fore.solveCalls_around (h : Fore 1 1 rank s) (ends : Ends b) (context : Context) :
    (∃ e, ∀ u, CallsLeave context u u →
      (Reckoner.solveCalls context [] (s ++ (u ++ b))).outcome = .error e) ∨
      ∃ w back, (¬ Oversigned w → Fore 2 1 rank w) ∧ Ends back ∧ ∀ u, CallsLeave context u u →
        (Reckoner.solveCalls context [] (s ++ (u ++ b))).outcome = .ok (w ++ (u ++ back)) := by
  rcases h.solveCalls context with ⟨e, fails⟩ | ⟨w, fore, leaves⟩
  · exact .inl ⟨e, fun u _ => fails (u ++ b)⟩
  have calls {u : Text} (silent : CallsLeave context u u) :
      (Reckoner.solveCalls context [] (s ++ (u ++ b))).outcome =
        (Reckoner.solveCalls context [] b).outcome.map fun b => w ++ u ++ b := by
    rw [leaves, silent w b ends, solveCalls_done]
  cases behind : (Reckoner.solveCalls context [] b).outcome with
  | error e => exact .inl ⟨e, fun u silent => by rw [calls silent, behind]; rfl⟩
  | ok back =>
    refine .inr ⟨w, back, fore, ends.solveCalls behind, fun u silent => ?_⟩
    rw [calls silent, behind, ← List.append_assoc]
    rfl

/-- An operation of the first rank can be solved before the segment around it, where the operator in
front of it has another rank and there are not too many signs in the segment once its calls are
solved. -/
theorem IsFirst.solveSegment_around (first : IsFirst context operation) (fore : Fore 1 1 .power s)
    (ends : Ends b) (whole : Slot.Completes 1 1 (.free 0) (s ++ (operation.text ++ b)))
    (single : ∀ w, (Reckoner.solveCalls context [] (s ++ (operation.text ++ b))).outcome = .ok w →
      ¬ Oversigned w) :
    Matches (fun t u => t = u) (solveSegment context (s ++ (operation.text ++ b))).outcome
      (((operation.solve context).mapError Failure.fault).bind fun x =>
        (solveSegment context (s ++ (markValue (Double.plain x) ++ b))).outcome) := by
  have silent : CallsLeave context operation.text operation.text := fun done t _ =>
    Reckoner.solveCalls_append first.letterless done t
  have silent' {x : Float} (value : operation.solve context = .ok x) :
      CallsLeave context (markValue (Double.plain x)) (markValue (Double.plain x)) := fun done t ends =>
    (denotes_markValue_plain context (Operation.solve_number value)).tame.solveCalls ends done
  rcases fore.solveCalls_around ends context with ⟨e, fails⟩ | ⟨w, back, fore', ends', leaves⟩
  · rw [solveSegment_outcome, fails _ silent]
    cases result : operation.solve context with
    | error e => exact .error _ _
    | ok x =>
      change Matches _ _ (solveSegment context _).outcome
      rw [solveSegment_outcome, fails _ (silent' result)]
      exact .error _ _
  · have solved {u : Text} (silent : CallsLeave context u u) :
        (solveSegment context (s ++ (u ++ b))).outcome =
          ((Reckoner.solveOperations context (w ++ (u ++ back))).outcome.mapError Failure.fault).map
            markValue := by
      rw [solveSegment_outcome, leaves u silent]
      rfl
    have few := single _ (leaves _ silent)
    have whole' := (whole.solveCalls (.inl (Nat.zero_le 1)) (leaves _ silent)).single few
    have operations := first.solveOperations (fore' fun signed => few (signed.append _)) ends' whole'
      fun signed => few (.inl (signed.append _))
    unfold SolvedFirst at operations
    rw [solved silent]
    cases result : operation.solve context with
    | error e =>
      rw [result] at operations
      rcases operations.cases with ⟨_, _, _, wrong, _⟩ | ⟨e', _, failed, _⟩
      · contradiction
      · rw [failed]
        exact .error _ _
    | ok x =>
      rw [result] at operations
      change Matches _ _ (solveSegment context _).outcome
      rw [solved (silent' result)]
      exact ((operations.mapError _).mapError_right _).map fun _ _ same => same

end Reckoner
