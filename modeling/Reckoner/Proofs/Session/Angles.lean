import Reckoner.Proofs.Evaluation.Angles
import Reckoner.Proofs.Evaluation.LoneArgument
import Reckoner.Proofs.Evaluation.Loops
import Reckoner.Proofs.Evaluation.Wrapped
import Reckoner.Proofs.Session.Wrapped

set_option autoImplicit false

/- Evaluations in both units of angles. They are the same where no trigonometric function is named, as
long as no name stands directly behind a group. Otherwise the digits of a value can come to stand
behind a group whose marks are dropped, and the letters before them can be the name of a
trigonometric function that the expression does not have. -/
namespace Reckoner

open Double

variable {context : Context} {bindings : Bindings} {setup : Setup} {session : Session} {raw t : Text}
  {a b : AngleMode}

/-- The name of a trigonometric function without its last two letters. -/
def Trig.front (f : Trig) : Text := f.name.dropLast.dropLast

def Trig.back (f : Trig) : Text := f.name.drop (f.name.length - 2)

/-- The two parts of the name, the second one as a group, and an absolute value directly behind. -/
def partedText (f : Trig) : Text :=
  '(' :: (f.front ++ '(' :: (f.back ++ ')' :: (Function.abs.name ++ ['1', ')'])))

/-- Both parts are letters, and no function has such a name. -/
theorem Trig.parts (f : Trig) :
    (f.front ≠ [] ∧ Letters f.front ∧ Function.ofName? f.front = none) ∧
      f.back ≠ [] ∧ Letters f.back ∧ Function.ofName? f.back = none := by
  unfold Letters
  cases f <;> decide

theorem isTame_front (f : Trig) : IsTame f.front :=
  isTame_letters f.parts.1.1 f.parts.1.2.1 f.parts.1.2.2

theorem isTame_back (f : Trig) : IsTame f.back :=
  isTame_letters f.parts.2.1 f.parts.2.2.1 f.parts.2.2.2

theorem solveCall_abs_one : solveCall context Function.abs.name ['1'] = .ok 1 := by
  have literal : Numeral.literal? (stripMarks ['1']) = some 1 := by decide +kernel
  have absolute : (1 : Float).abs = 1 := by decide +kernel
  unfold solveCall
  rw [Function.ofName?_name, literal]
  change (if (Float.abs 1).isNaN then _ else _) = _
  rw [absolute]
  rfl

/-- In front of a group and in it the two parts stay, and the absolute value gives way to its digit. -/
theorem solveCalls_parted (f : Trig) :
    (solveCalls context [] (f.front ++ (markValue f.back ++ (Function.abs.name ++ ['1'])))).outcome =
      .ok (f.front ++ (markValue f.back ++ ['1'])) := by
  have leave : CallsLeave context (Function.abs.name ++ ['1']) (plain 1) :=
    callsLeave_of_argument (name_ne_nil .abs) (letters_name .abs) (fun _ _ => rfl)
      (fun t ends => Literal.argument? ⟨['1'], [], by decide, by decide⟩ ends) solveCall_abs_one
  have value (done : Text) :
      (solveCalls context done (Function.abs.name ++ ['1'])).outcome = .ok (done ++ ['1']) := by
    have calls := leave done [] (.inl rfl)
    rw [List.append_nil, plain_one, solveCalls_of_letterless letterless_nil, List.append_nil] at calls
    exact calls
  have mark (c : Char) (other : c.isAlpha = false) : Letterless [c] :=
    List.forall_mem_singleton.2 other
  have shape (t : Text) : markValue f.back ++ t = [openMark] ++ (f.back ++ ([closeMark] ++ t)) := by
    have marked : markValue ([] ++ f.back) = _ := markValue_lead isLead_nil (isTame_back f).row
    rw [List.nil_append] at marked
    rw [marked]
    simp
  have missed : argument? (markValue f.back ++ (Function.abs.name ++ ['1'])) = none := by
    cases f <;> decide
  have missed' (t : Text) : argument? ([closeMark] ++ t) = none :=
    argument?_of_not (by decide) (by decide) t
  rw [solveCalls_tame (isTame_front f) rfl missed, shape, solveCalls_append (mark _ (by decide)),
    solveCalls_tame (isTame_back f) rfl (missed' _), solveCalls_append (mark _ (by decide)), value,
    shape]
  simp

theorem solveSegment_parted (f : Trig) :
    (solveSegment context (f.front ++ (markValue f.back ++ (Function.abs.name ++ ['1'])))).outcome =
      .ok (markValue (f.name ++ ['1'])) := by
  have bare : Bare [] := bare_nil
  have other : ∀ c ∈ f.front ++ (markValue f.back ++ ['1']), isOperator c = false := by
    cases f <;> decide
  have nothing (rank : Rank) : findOperation? rank (f.front ++ (markValue f.back ++ ['1'])) = none :=
    findOperation?_eq_none (pairwise_append_of_bare bare_nil other) rank
  have joined : markValue (f.front ++ (markValue f.back ++ ['1'])) = markValue (f.name ++ ['1']) := by
    cases f <;> decide
  rw [solveSegment_outcome, solveCalls_parted]
  simp only [Except.bind, solveOperations_outcome, solveRank_of_none (nothing _), Except.mapError,
    Except.map, joined]

/-- A call goes on as its value does in its place. -/
theorem solveCalls_gives {name argument tail : Text} (nonempty : name ≠ []) (letters : Letters name)
    (stop : startsWith Char.isAlpha t = false) (found : argument? t = some (argument, tail))
    (done : Text) : (solveCalls context done (name ++ t)).outcome =
      (solveCall context name argument).bind fun x =>
        (solveCalls context done (plain x ++ tail)).outcome := by
  have call : (solveCalls context done ([] ++ (name ++ t))).outcome = _ :=
    solveCalls_of_call nofun nonempty letters stop found
  rw [List.nil_append, List.append_nil] at call
  rw [call]
  cases result : solveCall context name argument with
  | error e => rfl
  | ok x =>
    simp only [Except.bind]
    rw [solveCalls_plain (solveCall_number result)]

/-- No call is seen in a number at the end, or in front of a closing mark. -/
theorem solveCalls_plain_end {x : Float} (number : x.isNaN = false) (done : Text)
    (last : t = [] ∨ t = [closeMark]) :
    (solveCalls context done (plain x ++ t)).outcome = .ok (done ++ (plain x ++ t)) := by
  have stop : startsWith Char.isAlpha t = false := by rcases last with rfl | rfl <;> rfl
  have missed : argument? t = none := by
    rcases last with rfl | rfl
    · rfl
    · exact argument?_of_not (by decide) (by decide) []
  have bare : Letterless t := by
    unfold Letterless
    rcases last with rfl | rfl <;> decide
  rw [plain_eq number, List.append_assoc, solveCalls_append (isLead_valueSign x).not_isAlpha,
    solveCalls_tame (isTame_sizeText _) stop missed, solveCalls_of_letterless bare]
  simp

theorem markValue_plain {x : Float} (number : x.isNaN = false) :
    markValue (plain x) = openMark :: (valueSign x ++ (sizeText (magnitude x) ++ [closeMark])) := by
  rw [plain_eq number, markValue_lead (isLead_valueSign x) (isTame_sizeText _).row]

/-- The calls of a name with the digit behind it, in marks. -/
theorem solveCalls_marked (f : Function) :
    (solveCalls context [] (markValue (f.name ++ ['1']))).outcome =
      (solveCall context f.name ['1']).map fun x => markValue (plain x) := by
  have row : IsRow (f.name ++ ['1']) := by
    refine ⟨by simp, List.forall_mem_append.2 ⟨fun c member => ?_, by decide⟩⟩
    exact isOperandChar_of_isAlpha (letters_name f c member)
  have shape : markValue (f.name ++ ['1']) = [openMark] ++ (f.name ++ (['1'] ++ [closeMark])) := by
    have marked : markValue ([] ++ (f.name ++ ['1'])) = _ := markValue_lead isLead_nil row
    rw [List.nil_append] at marked
    rw [marked]
    simp
  have mark : Letterless [openMark] := by
    unfold Letterless
    decide
  have inside : (solveCalls context ([] ++ [openMark]) (f.name ++ (['1'] ++ [closeMark]))).outcome =
      (solveCall context f.name ['1']).bind fun x =>
        (solveCalls context [openMark] (plain x ++ [closeMark])).outcome :=
    solveCalls_gives (name_ne_nil f) (letters_name f) rfl rfl _
  rw [shape, solveCalls_append mark, inside]
  cases result : solveCall context f.name ['1'] with
  | error e => rfl
  | ok x =>
    have number := solveCall_number result
    simp only [Except.bind, Except.map]
    rw [solveCalls_plain_end number _ (.inr rfl), markValue_plain number, plain_eq number]
    simp

/-- The calls of a name with the digit in marks behind it. -/
theorem solveCalls_behind_name (f : Function) :
    (solveCalls context [] (f.name ++ markValue ['1'])).outcome =
      (solveCall context f.name ['1']).map plain := by
  have same : solveCall context f.name (markValue ['1']) = solveCall context f.name ['1'] := by
    have strip : stripMarks (markValue ['1']) = stripMarks ['1'] := by decide
    unfold solveCall
    rw [strip]
  have alone : (solveCalls context [] (f.name ++ markValue ['1'])).outcome =
      (solveCall context f.name (markValue ['1'])).bind fun x =>
        (solveCalls context [] (plain x ++ [])).outcome :=
    solveCalls_gives (name_ne_nil f) (letters_name f) rfl rfl _
  rw [alone, same]
  cases result : solveCall context f.name ['1'] with
  | error e => rfl
  | ok x =>
    simp only [Except.bind, Except.map]
    rw [solveCalls_plain_end (solveCall_number result) _ (.inl rfl), List.append_nil, List.nil_append]

/-- Behind an opening mark a call gives way to its value as it does alone. -/
theorem solveSegment_joined (f : Function) :
    (solveSegment context (markValue (f.name ++ ['1']))).outcome =
      (solveSegment context (f.name ++ markValue ['1'])).outcome := by
  rw [solveSegment_outcome, solveSegment_outcome, solveCalls_marked, solveCalls_behind_name]
  cases result : solveCall context f.name ['1'] with
  | error e => rfl
  | ok x =>
    have number := solveCall_number result
    have tame := (denotes_markValue_plain context number).tame
    simp only [Except.bind, Except.map, solveOperations_tameOperand tame, solveOperations_plain number]
    exact congrArg Except.ok (markValue_markValue _)

/-- The two parts are read as a call of the function, in both units. -/
theorem solveExpression_parted (f : Trig) :
    (solveExpression context (partedText f)).outcome =
      (solveExpression context (callText (.trig f) ['1'])).outcome := by
  have back : Flattens context ('(' :: (f.back ++ [')'])) (.ok (markValue f.back)) := by
    have flat : Flattens context f.back (.ok f.back) := by
      apply flattens_of_flat <;> cases f <;> decide
    have whole := flat.group
    simp only [Except.bind, solveSegment_tameOperand (.row (isTame_back f))] at whole
    exact whole
  have front : Flattens context f.front (.ok f.front) := by
    apply flattens_of_flat <;> cases f <;> decide
  have abs : Flattens context (Function.abs.name ++ ['1']) (.ok (Function.abs.name ++ ['1'])) :=
    flattens_of_flat (by decide) (by decide)
  have parted := (front.append (back.append abs)).group
  simp only [Except.bind, Except.map, solveSegment_parted] at parted
  have shape : partedText f =
      '(' :: (f.front ++ ('(' :: (f.back ++ [')']) ++ (Function.abs.name ++ ['1'])) ++ [')']) := by
    simp [partedText]
  have one : Flattens context ['1'] (.ok ['1']) := flattens_of_flat (by decide) (by decide)
  have call := flattens_callText (f := .trig f) one (solveSegment_tameOperand (denotes_one context).tame)
  rw [shape, parted.solveExpression, call.solveExpression]
  simp only [Except.bind]
  rw [← solveSegment_joined]
  rfl

theorem checked_parted (f : Trig) (constants : setup.constants = Constant.builtin) :
    (setup.checked (partedText f)).outcome = .ok (partedText f) := by
  rw [Setup.checked_of_builtin constants]
  cases f <;> decide +kernel

theorem checked_call (f : Trig) (constants : setup.constants = Constant.builtin) :
    (setup.checked (callText (.trig f) ['1'])).outcome = .ok (callText (.trig f) ['1']) := by
  rw [Setup.checked_of_builtin constants]
  cases f <;> decide +kernel

theorem Trig.ne_of_ofName? {x : Text} (other : ∀ g : Trig, Function.ofName? x ≠ some (.trig g))
    (f : Trig) : f.name ≠ x := by
  rintro rfl
  exact other f (Function.ofName?_name (.trig f))

/-- None of the names in the text is that of a trigonometric function. -/
theorem not_isRun_parted (f g : Trig) : ¬ IsRun Char.isAlpha (partedText f) g.name := by
  obtain ⟨⟨nonempty, letters, front⟩, nonempty', letters', back⟩ := f.parts
  have abs : Function.ofName? Function.abs.name = some .abs := Function.ofName?_name .abs
  have parts : IsRun Char.isAlpha (partedText f) g.name ↔
      g.name = f.front ∨ g.name = f.back ∨ g.name = Function.abs.name := by
    have stop {c : Char} (other : c.isAlpha = false) (t : Text) :
        ∀ d ∈ (c :: t).head?, d.isAlpha = false := by
      rintro d ⟨⟩
      exact other
    have open' : '('.isAlpha = false := by decide
    have close : ')'.isAlpha = false := by decide
    have digit : '1'.isAlpha = false := by decide
    unfold partedText
    rw [isRun_cons_of_not open', isRun_append nonempty letters (stop open' _),
      isRun_cons_of_not open', isRun_append nonempty' letters' (stop close _),
      isRun_cons_of_not close, isRun_append (name_ne_nil .abs) (letters_name .abs) (stop digit _),
      isRun_cons_of_not digit, isRun_cons_of_not close]
    simp only [not_isRun_nil, or_false]
  rw [parts, not_or, not_or]
  exact ⟨g.ne_of_ofName? (by simp [front]), g.ne_of_ofName? (by simp [back]),
    g.ne_of_ofName? (by simp [abs])⟩

def Session.inUnit (session : Session) (angles : AngleMode) : Session :=
  { session with setup := { session.setup with angles } }

/-- What a call gives and what is remembered of it. -/
def Reply.answer {α : Type} (reply : Reply α) : Except Refusal α × Memory :=
  (reply.outcome, reply.session.memory)

theorem Session.execute_angles (free : FunctionsFree bindings)
    (checked : (session.setup.checked raw).outcome = .ok t) (names : NamesApart t)
    (other : ∀ f : Trig, ¬ IsRun Char.isAlpha t f.name) (a b : AngleMode) :
    ((session.inUnit a).setup.execute bindings raw t).outcome =
      ((session.inUnit b).setup.execute bindings raw t).outcome := by
  unfold Setup.execute
  rw [Traced.outcome_handle, Traced.outcome_handle]
  have same : (solveExpression ⟨bindings, (session.inUnit a).setup.angles⟩ t).outcome =
      (solveExpression ⟨bindings, (session.inUnit b).setup.angles⟩ t).outcome :=
    solveExpression_angles free (accepted_of_checked checked) names other a b
  rw [same]

theorem Session.checked_inUnit (session : Session) (a : AngleMode) (raw : Text) :
    (session.inUnit a).setup.checked raw = session.setup.checked raw := rfl

/-- Solutions are the same if the executions are. -/
theorem Session.solve_alike (alike : ∀ t, (session.setup.checked raw).outcome = .ok t →
      ((session.inUnit a).setup.execute bindings raw t).outcome =
        ((session.inUnit b).setup.execute bindings raw t).outcome) :
    ((session.inUnit a).solve bindings raw).answer =
      ((session.inUnit b).solve bindings raw).answer := by
  unfold Session.solve Setup.evaluate Reply.answer
  simp only [checked_inUnit]
  cases checked : (session.setup.checked raw).outcome with
  | error refusal => cases refusal <;> rfl
  | ok t =>
    simp only [alike t checked]
    cases ((session.inUnit b).setup.execute bindings raw t).outcome with
    | error r => rfl
    | ok x =>
      have style (angles : AngleMode) : (session.inUnit angles).setup.style = session.setup.style := rfl
      simp only [style]
      cases Display.round session.setup.style.places x <;> rfl

theorem Session.calculate_alike (alike : ∀ t, (session.setup.checked raw).outcome = .ok t →
      ((session.inUnit a).setup.execute bindings raw t).outcome =
        ((session.inUnit b).setup.execute bindings raw t).outcome) :
    ((session.inUnit a).calculate bindings raw).answer =
      ((session.inUnit b).calculate bindings raw).answer := by
  unfold Session.calculate Reply.answer
  simp only [checked_inUnit]
  cases checked : (session.setup.checked raw).outcome with
  | error refusal => rfl
  | ok t =>
    simp only [alike t checked]
    cases ((session.inUnit b).setup.execute bindings raw t).outcome with
    | error r => rfl
    | ok x =>
      have style (angles : AngleMode) : (session.inUnit angles).setup.style = session.setup.style := rfl
      simp only [style]
      cases Display.round session.setup.style.places x <;> rfl

/-- Where the canonical form has no name of a trigonometric function, and no name directly behind a
group, both units of angles give the same value or the same fault. Behind a group they need not: for
every trigonometric function there is an expression without any such name that has the value of a
call of the function in every unit. -/
theorem Session.angles_alike (session : Session) (bindings : Bindings) :
    (∀ raw, FunctionsFree bindings →
      (∀ t, (canonical session.setup.constants raw).outcome = .ok t →
        ∀ f : Trig, ¬ IsRun Char.isAlpha t f.name) →
      (∀ t, (canonical session.setup.constants raw).outcome = .ok t → NamesApart t) →
        ∀ a b,
          ((session.inUnit a).solve bindings raw).answer =
            ((session.inUnit b).solve bindings raw).answer ∧
          ((session.inUnit a).calculate bindings raw).answer =
            ((session.inUnit b).calculate bindings raw).answer) ∧
    ∀ f : Trig, session.setup.constants = Constant.builtin →
      (canonical session.setup.constants (partedText f)).outcome = .ok (partedText f) ∧
      (∀ g : Trig, ¬ IsRun Char.isAlpha (partedText f) g.name) ∧
      ∀ angles v, (session.inUnit angles).Solves bindings (partedText f) v ↔
        (session.inUnit angles).Solves bindings (callText (.trig f) ['1']) v := by
  refine ⟨fun raw free other names a b => ?_, fun f constants => ?_⟩
  · have alike (t : Text) (checked : (session.setup.checked raw).outcome = .ok t) :
        ((session.inUnit a).setup.execute bindings raw t).outcome =
          ((session.inUnit b).setup.execute bindings raw t).outcome := by
      have written := (Setup.checked_eq_ok_iff.1 checked).1
      exact execute_angles free checked (names t written) (other t written) a b
    exact ⟨solve_alike alike, calculate_alike alike⟩
  · have parted := checked_parted f constants
    refine ⟨(Setup.checked_eq_ok_iff.1 parted).1, not_isRun_parted f, fun angles v => ?_⟩
    have call := checked_call f constants
    rw [← checked_inUnit session angles] at parted call
    rw [solves_iff parted, solves_iff call, solveExpression_parted]

/-- An absolute value has nothing to do with angles, and nor does the text of two parts of a name,
which is the sine of one. -/
theorem Session.angles_alike_abs :
    (((Session.start Setup.standard).inUnit .degrees).solve [(['x'], .number 2)]
        (callText .abs ['2'])).answer =
      (((Session.start Setup.standard).inUnit .radians).solve [(['x'], .number 2)]
        (callText .abs ['2'])).answer ∧
    ∀ angles v,
      ((Session.start Setup.standard).inUnit angles).Solves [(['x'], .number 2)] (partedText .sin) v ↔
        ((Session.start Setup.standard).inUnit angles).Solves [(['x'], .number 2)]
          (callText (.trig .sin) ['1']) v := by
  obtain ⟨alike, parted⟩ :=
    Session.angles_alike (Session.start Setup.standard) [(['x'], .number 2)]
  have written : (canonical (Session.start Setup.standard).setup.constants
      (callText .abs ['2'])).outcome = .ok (callText .abs ['2']) := by decide +kernel
  refine ⟨(alike (callText .abs ['2']) ?_ ?_ ?_ .degrees .radians).1, (parted .sin rfl).2.2⟩
  · intro f
    cases f with
    | trig f => cases f <;> decide
    | _ => decide
  · intro t same f run
    rw [written] at same
    cases same
    have stop : ∀ c ∈ ['(', '2', ')'].head?, c.isAlpha = false := by
      rintro c ⟨⟩
      decide
    have names : f.name = Function.abs.name ∨ IsRun Char.isAlpha ['(', '2', ')'] f.name :=
      (isRun_append (name_ne_nil .abs) (letters_name .abs) stop).1 run
    rw [isRun_cons_of_not (by decide), isRun_cons_of_not (by decide), isRun_cons_of_not (by decide)]
      at names
    exact f.ne_of_ofName? (by rw [Function.ofName?_name]; exact nofun)
      (names.resolve_right not_isRun_nil)
  · intro t same
    rw [written] at same
    cases same
    exact namesApart_callText (by decide)

end Reckoner
