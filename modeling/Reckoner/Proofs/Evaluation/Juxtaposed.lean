import Reckoner.Proofs.Evaluation.Callable
import Reckoner.Proofs.Expression.Written

set_option autoImplicit false

/- Factors directly behind a group. Between a closing parenthesis and a name the canonical form has no
operator, and what the name stands for is put directly behind the value of the group, whose marks
are dropped in the end. So the digits of both are read as one number, or a negative value is
subtracted, where the product is meant. -/
namespace Reckoner

open Double

variable {context : Context} {f : Function} {t u p a name argument rest tail o lead r : Text}
  {x y c z : Float}

/-- Where a name stands behind a mark, the first name of the text is this one or stands before the
mark. -/
theorem name_behind_mark {first : Text} (bare : Letterless p) (letters : Letters first)
    (stop : startsWith Char.isAlpha t = false) (nonempty : name ≠ []) (letters' : Letters name)
    (stop' : startsWith Char.isAlpha rest = false)
    (shape : p ++ (first ++ t) = a ++ closeMark :: (name ++ rest)) :
    (∃ b, t = b ++ closeMark :: (name ++ rest)) ∨ (first = name ∧ t = rest) := by
  rcases append_name_eq letters (by decide) shape with ⟨w, rfl, behind⟩ | inside
  swap
  · exact .inl inside
  cases w with
  | cons e w =>
    obtain ⟨d, s, rfl⟩ := List.exists_cons_of_ne_nil nonempty
    have letter := letters' d (.head _)
    rw [(List.cons.inj behind).1, bare e (by simp)] at letter
    contradiction
  | nil =>
    have names := congrArg (List.takeWhile Char.isAlpha) behind
    have rests := congrArg (List.dropWhile Char.isAlpha) behind
    rw [List.nil_append, takeWhile_letters letters' stop', takeWhile_letters letters stop] at names
    rw [List.nil_append, dropWhile_letters letters' stop', dropWhile_letters letters stop] at rests
    exact .inr ⟨names.symm, rests.symm⟩

/-- An argument has no closing mark but the one that it may end with. -/
theorem argument?_closes (found : argument? t = some (argument, tail)) :
    ∃ w mark, argument = w ++ mark ∧ closeMark ∉ w ∧ (mark = [] ∨ mark = [closeMark]) := by
  rcases argument?_shape found with row | ⟨sign, size, rfl, lead, argumentSize⟩
  · exact ⟨argument, [], (List.append_nil _).symm,
      fun member => absurd (row closeMark member) (by decide), .inl rfl⟩
  · refine ⟨openMark :: (sign ++ size), [closeMark], by simp, fun member => ?_, .inr rfl⟩
    rcases List.mem_cons.1 member with same | inside
    · exact absurd same (by decide)
    · rcases List.mem_append.1 inside with inside | inside
      · exact absurd (lead.signs closeMark inside) (by decide)
      · exact absurd (argumentSize.row.2 closeMark inside) (by decide)

theorem argument?_behind_mark (found : argument? (a ++ closeMark :: u) = some (argument, tail)) :
    (∃ b, tail = b ++ closeMark :: u) ∨ tail = u := by
  have shape := argument?_eq_append found
  obtain ⟨w, mark, rfl, inside, last⟩ := argument?_closes found
  have behind {b : Text} (after : mark ++ tail = b ++ closeMark :: u) :
      (∃ b, tail = b ++ closeMark :: u) ∨ tail = u := by
    rcases last with rfl | rfl
    · exact .inl ⟨b, after⟩
    · cases b with
      | nil => exact .inr (List.cons.inj after).2
      | cons e b => exact .inl ⟨b, (List.cons.inj after).2⟩
  rw [List.append_assoc] at shape
  rcases List.append_eq_append_iff.1 shape.symm with ⟨b, rfl, after⟩ | ⟨b, rfl, after⟩
  · exact behind after
  · cases b with
    | nil => exact behind (b := []) after.symm
    | cons e b =>
      have same : closeMark = e := (List.cons.inj after).1
      exact absurd (same ▸ List.mem_append_right a (.head b)) inside

/-- No function's name begins with that of infinity. -/
theorem ofName?_infinityName_append (name : Text) :
    Function.ofName? (infinityName ++ name) = none := by
  cases found : Function.ofName? (infinityName ++ name) with
  | none => rfl
  | some f =>
    have head : f.name.head? = some 'I' := by
      rw [Function.name_of_ofName? found]
      rfl
    revert head
    cases f with
    | trig f => cases f <;> decide
    | _ => decide

theorem solveCalls_fails {e : Failure} (nonempty : name ≠ []) (letters : Letters name)
    (stop : startsWith Char.isAlpha rest = false) (found : argument? rest = some (argument, tail))
    (failed : solveCall context name argument = .error e) (done : Text) :
    (solveCalls context done (name ++ rest)).outcome = .error e := by
  have call : (solveCalls context done ([] ++ (name ++ rest))).outcome = _ :=
    solveCalls_of_call nofun nonempty letters stop found
  rw [List.nil_append, failed] at call
  exact call

/-- A call that fails does so behind a mark as well. -/
theorem solveCalls_fails_behind {e : Failure}
    (stop : startsWith Char.isAlpha rest = false) (found : argument? rest = some (argument, tail))
    (failed : solveCall context f.name argument = .error e) (done front : Text) :
    ∃ e', (solveCalls context done (front ++ closeMark :: (f.name ++ rest))).outcome =
      .error e' := by
  obtain ⟨whole, shape⟩ : ∃ t, t = front ++ closeMark :: (f.name ++ rest) := ⟨_, rfl⟩
  rw [← shape]
  induction whole using calls_induction generalizing done front with
  | letterless t bare =>
    obtain ⟨d, s, name⟩ := List.exists_cons_of_ne_nil (name_ne_nil f)
    have letter := letters_name f d (by rw [name]; exact .head _)
    rw [bare d (by rw [shape, name]; simp)] at letter
    contradiction
  | named p name t bare nonempty letters stop' missed ih =>
    rcases name_behind_mark bare letters stop' (name_ne_nil f) (letters_name f) stop shape with
      ⟨b, rfl⟩ | ⟨rfl, rfl⟩
    · rw [solveCalls_of_name bare nonempty letters stop' missed]
      split
      · exact ⟨_, rfl⟩
      · exact ih _ b rfl
    · rw [found] at missed
      contradiction
  | called p name t argument' tail' bare nonempty letters stop' found' ih ihInfinite =>
    rw [solveCalls_of_call bare nonempty letters stop' found']
    cases result : solveCall context name argument' with
    | error e => exact ⟨e, rfl⟩
    | ok x =>
      simp only [Except.bind]
      rcases name_behind_mark bare letters stop' (name_ne_nil f) (letters_name f) stop shape with
        ⟨b, rfl⟩ | ⟨rfl, rfl⟩
      · rcases argument?_behind_mark found' with ⟨b', rfl⟩ | rfl
        · split
          · exact ihInfinite _ (infinityName ++ b') (List.append_assoc ..).symm
          · exact ih _ b' rfl
        -- The call before ends where this one begins, so an infinite value gets into its name.
        · split
          · have letters' : Letters (infinityName ++ f.name) :=
              List.forall_mem_append.2 ⟨letters_infinityName, letters_name f⟩
            have unknown : solveCall context (infinityName ++ f.name) argument =
                .error (.fault (.unknownFunction (infinityName ++ f.name))) := by
              unfold solveCall
              rw [ofName?_infinityName_append]
            rw [← List.append_assoc]
            exact ⟨_, solveCalls_fails (List.append_ne_nil_of_right_ne_nil _ (name_ne_nil f))
              letters' stop found unknown _⟩
          · exact ⟨_, solveCalls_fails (name_ne_nil f) (letters_name f) stop found failed _⟩
      · rw [found] at found'
        cases found'
        rw [failed] at result
        contradiction

/-- A factor that begins with a letter: the name of a number, or the call of a function with a
numeral or a group as its argument. The call is made, that is, what the group comes to can be an
argument. -/
inductive IsFactor (context : Context) : Text → Prop
  | name {r : Text} {y : Float} (letters : Letters r) (tame : IsTame r)
    (value : rowValue? context r = some y) (number : y.isNaN = false) : IsFactor context r
  | applied (f : Function) (l : Literal) : IsFactor context (f.name ++ l.text)
  | called (f : Function) {t : Text} (balanced : Balanced t)
    (made : ∀ value, (solveGroups context [] [] (t ++ [')'])).outcome = .ok value →
      ∃ call, argument? value = some call) : IsFactor context (callText f t)

/-- The part is a call that fails in every segment in which it is read to its end. -/
def FailsAsCall (context : Context) (o : Text) : Prop :=
  ∃ (f : Function) (rest argument : Text) (e : Failure), Flattens context o (.ok (f.name ++ rest)) ∧
    (∀ t, o.getLast? = some ')' ∨ Ends t → startsWith Char.isAlpha (rest ++ t) = false ∧
      argument? (rest ++ t) = some (argument, t)) ∧
    solveCall context f.name argument = .error e

/-- The part leaves a row that stands for a number, perhaps with a sign. -/
def LeavesNumber (context : Context) (o : Text) : Prop :=
  ∃ w lead r y, Flattens context o (.ok w) ∧ CallsLeave context w (lead ++ r) ∧ IsLead lead ∧
    IsRow r ∧ Denotes context r y ∧ y.isNaN = false

theorem leavesNumber_of_plain {w : Text} (flat : Flattens context o (.ok w))
    (leave : CallsLeave context w (plain x)) (number : x.isNaN = false) :
    LeavesNumber context o := by
  have notNan := isNaN_eq_false_iff.1 number
  rw [plain_eq number] at leave
  refine ⟨w, valueSign x, sizeText (magnitude x), _, flat, leave, isLead_valueSign x,
    (isTame_sizeText _).row, denotes_sizeText context notNan, ?_⟩
  rw [isNaN_eq_false_iff, magnitude_ofMagnitude _ notNan]
  exact notNan

/-- A factor is not solved, or it is a call that fails, or it comes to a number. -/
theorem IsFactor.cases (h : IsFactor context o) :
    (∃ e, Flattens context o (.error e)) ∨ FailsAsCall context o ∨ LeavesNumber context o := by
  cases h with
  | @name _ y letters tame value number =>
    obtain ⟨open', close⟩ := flat_of_letters letters
    refine .inr (.inr ⟨o, [], o, y, flattens_of_flat open' close, fun done t ends => ?_, isLead_nil,
      tame.row, denotes_row tame value, number⟩)
    exact (IsTameOperand.row tame).solveCalls ends done
  | applied f l =>
    have flat : Flattens context (f.name ++ l.text) (.ok (f.name ++ l.text)) := by
      refine flattens_of_flat (fun member => ?_) (fun member => ?_)
      · exact (List.mem_append.1 member).elim (name_flat f).1 l.flat.1
      · exact (List.mem_append.1 member).elim (name_flat f).2 l.flat.2
    have stop := l.not_startsWith_isAlpha
    have last : (f.name ++ l.text).getLast? ≠ some ')' := fun last =>
      (List.mem_append.1 (List.mem_of_getLast? last)).elim (name_flat f).2 l.flat.2
    cases result : solveCall context f.name l.text with
    | error e =>
      refine .inr (.inl ⟨f, l.text, l.text, e, flat, fun t ends => ⟨stop t, ?_⟩, result⟩)
      exact l.argument? (ends.resolve_left last)
    | ok x =>
      refine .inr (.inr (leavesNumber_of_plain flat ?_ (solveCall_number result)))
      exact callsLeave_of_argument (name_ne_nil f) (letters_name f) (fun t _ => stop t)
        (fun t ends => l.argument? ends) result
  | @called f t balanced made =>
    obtain ⟨flat, inner⟩ := balanced.flattens context
    have solved := inner.solveGroups
    have whole : Flattens context (callText f t) _ :=
      (flattens_of_flat (name_flat f).1 (name_flat f).2).append inner.group
    cases content : flat.bind fun u => (solveSegment context u).outcome with
    | error e =>
      rw [content] at whole
      exact .inl ⟨e, whole⟩
    | ok value =>
      rw [content] at whole solved
      obtain ⟨⟨argument, tail⟩, found⟩ := made value solved
      obtain ⟨u, _, segment⟩ := bind_eq_ok content
      obtain ⟨v, rfl⟩ := solveSegment_marks segment
      have read (t : Text) : argument? (markValue v ++ t) = some (argument, t) :=
        argument?_markValue found t
      cases result : solveCall context f.name argument with
      | error e =>
        exact .inr (.inl ⟨f, markValue v, argument, e, whole, fun t _ => ⟨rfl, read t⟩, result⟩)
      | ok x =>
        refine .inr (.inr (leavesNumber_of_plain whole ?_ (solveCall_number result)))
        exact callsLeave_call (name_ne_nil f) (letters_name f) found result

theorem IsFactor.balanced (h : IsFactor context o) : Balanced o := by
  have flat {t : Text} (open' : '(' ∉ t) (close : ')' ∉ t) : Balanced t := by
    have whole := Balanced.append_flat open' close .nil
    rwa [List.append_nil] at whole
  cases h with
  | name letters => exact flat (flat_of_letters letters).1 (flat_of_letters letters).2
  | applied f l =>
    exact .append_flat (name_flat f).1 (name_flat f).2 (flat l.flat.1 l.flat.2)
  | called f balanced => exact balanced_callText f balanced

/-- Where a factor that comes to no number stands behind a group, there is no value. -/
theorem no_value_behind {before after : Text} {v : Float} (balanced : Balanced o)
    (failed : (∃ e, Flattens context o (.error e)) ∨ FailsAsCall context o)
    (closed : openAtEnd 0 0 (before ++ [')'] ++ (o ++ after)) = .ok 0)
    (ended : o.getLast? = some ')' ∨ ∀ c ∈ after.head?, c = ')' ∨ isOperator c = true) :
    (solveExpression context (before ++ [')'] ++ (o ++ after))).outcome ≠ .ok v := by
  rcases failed with ⟨e, failed⟩ | ⟨f, rest, argument, e, flat, read, failed⟩
  · obtain ⟨e', result⟩ := solveExpression_around_error closed failed
    rw [result]
    nofun
  · obtain ⟨r, place, evaluated⟩ := solveExpression_around closed balanced context
    rw [evaluated _ _ flat]
    cases r with
    | error e => nofun
    | ok s =>
      obtain ⟨_, ends, marks⟩ := place s rfl
      obtain ⟨u, v, front⟩ := marks (by simp)
      obtain ⟨stop, found⟩ := read s.2.1 (ended.imp_right ends)
      have shape : s.1 ++ (f.name ++ rest ++ s.2.1) =
          u ++ openMark :: bareOperand v ++ closeMark :: (f.name ++ (rest ++ s.2.1)) := by
        rw [front, markValue]
        simp
      obtain ⟨e', calls⟩ := solveCalls_fails_behind stop found failed [] (u ++ openMark :: bareOperand v)
      simp only [Except.bind]
      rw [solveSegment_outcome, shape, calls]
      rintro ⟨⟩

/-- An exponent that makes the number one, or leaves it zero. -/
structure Levels (context : Context) (y : Float) (e d : Char) (z : Float) : Prop where
  power : ∃ c, Denotes context [e] c ∧ combine .power y c = .ok z
  known : (e = '0' ∧ d = '1' ∧ z = 1) ∨ (e = '1' ∧ d = '0' ∧ z = 0)

theorem exists_levels (context : Context) (number : y.isNaN = false) :
    ∃ e d z, Levels context y e d z := by
  by_cases zero : magnitude y = 0
  · refine ⟨'1', '0', 0, ⟨1, denotes_one context, ?_⟩, .inr ⟨rfl, rfl, rfl⟩⟩
    unfold combine
    change (power y 1).bind _ = _
    have positive : (1 : Float) > 0 := by decide
    rw [power_of_zero_base zero (by decide) (by decide), if_pos positive]
    rfl
  · have exponent : Denotes context ['0'] (ofMagnitude false 0) :=
      denotes_sizeText context (Nat.zero_le _)
    exact ⟨'0', '1', 1, ⟨_, exponent, combine_power_zero number zero (by decide)⟩,
      .inl ⟨rfl, rfl, rfl⟩⟩

variable {e d : Char}

theorem Levels.plain (h : Levels context y e d z) : plain z = [d] := by
  rcases h.known with ⟨_, rfl, rfl⟩ | ⟨_, rfl, rfl⟩
  · exact plain_one
  · have sign : valueSign 0 = [] := by decide
    rw [plain_eq (by decide), sign, sizeText_zero]
    rfl

theorem Levels.denotes (h : Levels context y e d z) : Denotes context [d] z := by
  rcases h.known with ⟨_, rfl, rfl⟩ | ⟨_, rfl, rfl⟩
  · exact denotes_one context
  · exact denotes_zero context

def markedOne : Text := markValue ['1']

theorem flattens_one : Flattens context ['(', '1', ')'] (.ok markedOne) := by
  have group : Flattens context ('(' :: (plain 1 ++ [')'])) (.ok (markValue (plain 1))) :=
    flattens_plain (by decide)
  rw [plain_one] at group
  exact group

/-- A number without a sign becomes the last digits of the one before it. -/
theorem solveOperations_fused (row : IsRow r) (value : Denotes context r y)
    (levels : Levels context y e d z) :
    (solveOperations context (markedOne ++ (r ++ ['^', e]))).outcome = .ok (markedOne ++ [d]) := by
  obtain ⟨c, exponent, power⟩ := levels.power
  have operand : IsOperand [e] := exponent.tame.operand
  have stop : Stops ['^', e] := stops_symbol .power [e]
  have follow : follow? .power ['^', e] = some (.power, [e], []) := by
    have right := operand.rightOperand? stops_nil isLead_nil
    have symbol : follow? .power (Operator.power.symbol :: ([] ++ ([e] ++ []))) = _ :=
      follow?_symbol right
    exact symbol
  have nothing : follow? .power (r ++ ['^', e]) = none := by
    obtain ⟨c, s, rfl, head⟩ := row.exists_cons
    have none : Operator.ofChar? c = none := by
      cases found : Operator.ofChar? c with
      | none => rfl
      | some operator =>
        rw [← Operator.symbol_of_ofChar? found, Operator.not_isOperandChar_symbol] at head
        contradiction
    simp [follow?, none]
  have found : findOperation? .power (markedOne ++ (r ++ ['^', e])) =
      some (markedOne, ⟨r, .power, [e]⟩, []) := by
    have inner := operationAt?_of_leftOperand? ((IsOperand.row row).leftOperand? stop .power)
    rw [follow] at inner
    have one : IsRow ['1'] := ⟨by decide, by unfold Solid; decide⟩
    have mark : findOperation? .power (markedOne ++ (r ++ ['^', e])) =
        behind markedOne (findOperation? .power (r ++ ['^', e])) :=
      findOperation?_marked isLead_nil one nothing
    rw [mark, findOperation?_of_found (by simp) inner]
    rfl
  have solved := solve_of_denotes .power value exponent isLead_nil isLead_nil
  rw [List.nil_append, List.nil_append, applyLead_nil, applyLead_nil, power] at solved
  rw [solveOperations_outcome, solveRank_of_some found, solved]
  have last (rank : Rank) : findOperation? rank (markedOne ++ [d]) = none := by
    rcases levels.known with ⟨_, rfl, _⟩ | ⟨_, rfl, _⟩ <;> cases rank <;> decide +kernel
  have reduced : reduceSigns (markedOne ++ [d] ++ []) = markedOne ++ [d] := by
    rcases levels.known with ⟨_, rfl, _⟩ | ⟨_, rfl, _⟩ <;> decide
  simp only [Except.bind, levels.plain, solveRank_of_none (last _), reduced]

def oneAndPower (m : Link) (e : Char) : List Link :=
  [⟨none, [], markedOne⟩, m, ⟨some .power, [], [e]⟩]

theorem denotes_markedOne (context : Context) : Denotes context markedOne 1 := by
  have sign : valueSign 1 = [] := by decide
  have same : ofMagnitude false (magnitude 1) = 1 := by decide
  have one : (1 : Float).isNaN = false := by decide
  have marked := denotes_markValue_plain context one
  rw [plain_one, sign, same, applyLead_nil] at marked
  exact marked

/-- In a chain of these links the exponent is solved first. -/
theorem solveOperations_oneAndPower {m : Link} (joined : m.Joined) (apart : m.joins .power = false)
    (value : Denotes context m.operand y) (levels : Levels context y e d z) :
    (solveOperations context (linksText (oneAndPower m e))).outcome =
      ((pass context .product [⟨none, [], markedOne⟩, ⟨m.glue, m.lead, [d]⟩]).bind
        (total context)).map Link.body := by
  obtain ⟨c, exponent, power⟩ := levels.power
  have first : Link.Valid ⟨none, [], markedOne⟩ :=
    ⟨isLead_nil, (denotes_markedOne context).tame, nofun⟩
  have last : Link.Joined ⟨some .power, [], [e]⟩ :=
    ⟨⟨isLead_nil, exponent.tame, fun operator same => by cases same; decide⟩, nofun⟩
  have part : Part none [] (oneAndPower m e) := by
    refine ⟨⟨_, _, rfl, rfl, rfl, ?_⟩, ?_⟩
    · simpa using ⟨joined, last⟩
    · simpa [oneAndPower] using ⟨first, joined.toValid, last.toValid⟩
  have solved := solve_of_denotes .power value exponent isLead_nil isLead_nil
  rw [List.nil_append, List.nil_append, applyLead_nil, applyLead_nil, power] at solved
  have spliced : m.splice z = ⟨m.glue, m.lead, [d]⟩ := by
    unfold Link.splice
    rcases levels.known with ⟨_, rfl, rfl⟩ | ⟨_, rfl, rfl⟩
    · have sign : valueSign 1 = [] := by decide
      rw [sign, sizeText_one, List.append_nil, joined.lead.reduced]
    · have sign : valueSign 0 = [] := by decide
      rw [sign, sizeText_zero, List.append_nil, joined.lead.reduced]
  have inner : passLinks context .power m [⟨some .power, [], [e]⟩] =
      .ok [⟨m.glue, m.lead, [d]⟩] := by
    change (Operation.solve context ⟨m.operand, .power, [e]⟩).bind _ = _
    rw [solved, ← spliced]
    rfl
  have powers : pass context .power (oneAndPower m e) =
      .ok [⟨none, [], markedOne⟩, ⟨m.glue, m.lead, [d]⟩] := by
    change passLinks context .power _ [m, _] = _
    rw [passLinks_apart apart, inner]
    rfl
  rw [solveOperations_links part, terms, powers]
  rfl

/-- A number with a sign is added or subtracted. -/
theorem solveOperations_signed (sign : lead = ['+'] ∨ lead = ['-']) (value : Denotes context r y)
    (levels : Levels context y e d z) (sum : combine (leadOperator lead) 1 z = .ok x) :
    (solveOperations context (markedOne ++ (lead ++ (r ++ ['^', e])))).outcome =
      .ok (plain x) := by
  have joined : Link.Joined ⟨none, lead, r⟩ :=
    ⟨⟨.inr sign, value.tame, nofun⟩, fun _ => by rcases sign with rfl | rfl <;> simp⟩
  have solved := solve_of_denotes (leadOperator lead) (denotes_markedOne context) levels.denotes
    isLead_nil isLead_nil
  rw [List.nil_append, List.nil_append, applyLead_nil, applyLead_nil, sum] at solved
  have shape : markedOne ++ (lead ++ (r ++ ['^', e])) = linksText (oneAndPower ⟨none, lead, r⟩ e) := by
    simp [oneAndPower, linksText, Link.symbol, Link.body, Operator.symbol]
  rw [shape, solveOperations_oneAndPower joined rfl value levels]
  change ((Operation.solve context ⟨markedOne, leadOperator lead, [d]⟩).bind _).map _ = _
  rw [solved, plain_eq (combine_number sum)]
  rfl

/-- With an operator between them there is a product. -/
theorem solveOperations_product (sign : IsLead lead) (value : Denotes context r y)
    (levels : Levels context y e d z) (product : combine .multiply 1 (applyLead lead z) = .ok x) :
    (solveOperations context (markedOne ++ (['*'] ++ (lead ++ (r ++ ['^', e]))))).outcome =
      .ok (plain x) := by
  have joined : Link.Joined ⟨some .multiply, lead, r⟩ :=
    ⟨⟨sign, value.tame, fun operator same => by cases same; decide⟩, nofun⟩
  have solved := solve_of_denotes .multiply (denotes_markedOne context) levels.denotes
    isLead_nil sign
  rw [List.nil_append, applyLead_nil, product] at solved
  have shape : markedOne ++ (['*'] ++ (lead ++ (r ++ ['^', e]))) =
      linksText (oneAndPower ⟨some .multiply, lead, r⟩ e) := by
    simp [oneAndPower, linksText, Link.symbol, Link.body, Operator.symbol]
  have body : (Link.splice ⟨none, [], markedOne⟩ x).body = plain x := by
    unfold Link.splice Link.body
    rw [List.nil_append, (isLead_valueSign x).reduced, plain_eq (combine_number product)]
  rw [shape, solveOperations_oneAndPower joined rfl value levels, ← body]
  change (((Operation.solve context ⟨markedOne, .multiply, lead ++ [d]⟩).bind _).bind _).map _ = _
  rw [solved]
  rfl

/-- The value of a factor behind the group of a one, with a text between them. -/
theorem solveExpression_behind_one {j w : Text} (bare : Letterless j)
    (between : '(' ∉ j ∧ ')' ∉ j) (flat : Flattens context o (.ok w))
    (leave : CallsLeave context w (lead ++ r)) (levels : Levels context y e d z) :
    (solveExpression context (['(', '1', ')'] ++ (j ++ (o ++ ['^', e])))).outcome =
      ((solveOperations context (markedOne ++ (j ++ (lead ++ (r ++ ['^', e]))))).outcome.mapError
        .fault).bind fun t => (resolveOperand context (markValue t)).mapError .fault := by
  have after : Letterless ['^', e] ∧ '(' ∉ ['^', e] ∧ ')' ∉ ['^', e] := by
    unfold Letterless
    rcases levels.known with ⟨rfl, _⟩ | ⟨rfl, _⟩ <;> decide
  have one : Letterless markedOne := by
    unfold Letterless
    decide
  have whole : Flattens context (['(', '1', ')'] ++ (j ++ (o ++ ['^', e])))
      (.ok (markedOne ++ (j ++ (w ++ ['^', e])))) :=
    flattens_one.append ((flattens_of_flat between.1 between.2).append
      (flat.append (flattens_of_flat after.2.1 after.2.2)))
  have calls : (solveCalls context [] (markedOne ++ (j ++ (w ++ ['^', e])))).outcome =
      .ok (markedOne ++ (j ++ (lead ++ (r ++ ['^', e])))) := by
    have left : (solveCalls context ([] ++ markedOne ++ j) (w ++ ['^', e])).outcome = _ :=
      leave _ _ (.inr ⟨.power, [e], rfl⟩)
    rw [solveCalls_append one, solveCalls_append bare, left, solveCalls_of_letterless after.1]
    simp
  rw [whole.solveExpression]
  simp only [Except.bind]
  rw [solveSegment_outcome, calls]
  simp only [Except.bind]
  cases (solveOperations context (markedOne ++ (j ++ (lead ++ (r ++ ['^', e]))))).outcome <;> rfl

/-- An expression in which the part stands directly behind a group has no other value than the
product would have. -/
def KeepsApart (context : Context) (part : Text) : Prop :=
  ∀ before after v, Accepted (before ++ [')'] ++ (part ++ after)) →
    (part.getLast? = some ')' ∨ ∀ c ∈ after.head?, c = ')' ∨ isOperator c = true) →
    (solveExpression context (before ++ [')'] ++ (part ++ after))).outcome = .ok v →
    (solveExpression context (before ++ [')'] ++ '*' :: (part ++ after))).outcome = .ok v

theorem accepted_behind_one (accepted : Accepted o) (first : ∀ c ∈ o.head?, c.isAlpha = true)
    (levels : Levels context y e d z) : Accepted (['(', '1'] ++ [')'] ++ (o ++ ['^', e])) := by
  have one : Accepted ['(', '1', ')'] := ⟨⟨[], ['(', '1', ')'], by decide +kernel⟩, by decide +kernel⟩
  have power : Accepted (o ++ '^' :: [e]) := by
    rcases levels.known with ⟨rfl, _⟩ | ⟨rfl, _⟩
    · exact accepted.append_operator ⟨⟨[], ['0'], by decide +kernel⟩, by decide +kernel⟩ (by decide)
        fun b head => by cases head; rfl
    · exact accepted.append_operator ⟨⟨[], ['1'], by decide +kernel⟩, by decide +kernel⟩ (by decide)
        fun b head => by cases head; rfl
  refine one.append power (by decide) fun a last b head => ?_
  cases last
  have letter : b.isAlpha = true := by
    refine first b ?_
    cases o with
    | nil => exact absurd rfl (accepted_iff.1 accepted).2.1.ne_nil
    | cons c o => exact head
  change (isOperator b || b == ')' || b.isAlpha) = true
  rw [letter, Bool.or_true]

theorem resolveOperand_markValue_plain (context : Context) {x : Float} (number : x.isNaN = false) :
    (resolveOperand context (markValue (plain x))).mapError Failure.fault =
      .ok (applyLead (valueSign x) (ofMagnitude false (magnitude x))) := by
  have read := ((denotes_markValue_plain context number).resolve isLead_nil).1
  rw [List.nil_append, applyLead_nil] at read
  rw [read]
  rfl

theorem resolveOperand_of_literal (context : Context) {t : Text} {v : Float}
    (read : Numeral.literal? (bareOperand t) = some v) :
    (resolveOperand context t).mapError Failure.fault = .ok v := by
  unfold resolveOperand
  simp only [read]
  rfl

theorem not_keepsApart (h : LeavesNumber context o) (accepted : Accepted o)
    (first : ∀ c ∈ o.head?, c.isAlpha = true) : ¬ KeepsApart context o := by
  intro keeps
  obtain ⟨w, lead, r, y, flat, leave, sign, row, value, number⟩ := h
  obtain ⟨e, d, z, levels⟩ := exists_levels context number
  have ends : o.getLast? = some ')' ∨ ∀ c ∈ ['^', e].head?, c = ')' ∨ isOperator c = true :=
    .inr fun c head => by cases head; exact .inr rfl
  have fused := solveExpression_behind_one (j := []) letterless_nil (by decide) flat leave levels
  have times := solveExpression_behind_one (j := ['*']) (by unfold Letterless; decide) (by decide)
    flat leave levels
  simp only [List.nil_append] at fused
  -- The value with the operator is that of a product with one.
  have clash {v s : Float} (value' : (solveExpression context
      (['(', '1', ')'] ++ (o ++ ['^', e]))).outcome = .ok v)
      (product : combine .multiply 1 (applyLead lead z) = .ok s) :
      v = applyLead (valueSign s) (ofMagnitude false (magnitude s)) := by
    have result := keeps ['(', '1'] ['^', e] v (accepted_behind_one accepted first levels) ends value'
    rw [solveOperations_product sign value levels product] at times
    exact Except.ok.inj (result.symm.trans (times.trans
      (resolveOperand_markValue_plain context (combine_number product))))
  rcases sign with rfl | signed
  · simp only [List.nil_append, solveOperations_fused row value levels] at fused
    rcases levels.known with ⟨_, rfl, rfl⟩ | ⟨_, rfl, rfl⟩
    · have eleven : Numeral.literal? (bareOperand (markValue (markedOne ++ ['1']))) = some 11 := by
        decide +kernel
      have product : combine .multiply 1 (applyLead [] 1) = .ok 1 := by decide +kernel
      exact absurd (clash (fused.trans (resolveOperand_of_literal context eleven)) product)
        (by decide +kernel)
    · have ten : Numeral.literal? (bareOperand (markValue (markedOne ++ ['0']))) = some 10 := by
        decide +kernel
      have product : combine .multiply 1 (applyLead [] 0) = .ok 0 := by decide +kernel
      exact absurd (clash (fused.trans (resolveOperand_of_literal context ten)) product)
        (by decide +kernel)
  · have sum {s : Float} (added : combine (leadOperator lead) 1 z = .ok s) :
        (solveExpression context (['(', '1', ')'] ++ (o ++ ['^', e]))).outcome =
          .ok (applyLead (valueSign s) (ofMagnitude false (magnitude s))) := by
      rw [solveOperations_signed signed value levels added] at fused
      exact fused.trans (resolveOperand_markValue_plain context (combine_number added))
    have apart {s p : Float} (added : combine (leadOperator lead) 1 z = .ok s)
        (product : combine .multiply 1 (applyLead lead z) = .ok p) :=
      clash (sum added) product
    rcases signed with rfl | rfl <;> rcases levels.known with ⟨_, _, rfl⟩ | ⟨_, _, rfl⟩
    · have result := apart (s := 2) (p := 1) (by decide +kernel) (by decide +kernel)
      exact absurd result (by decide +kernel)
    · have result := apart (s := 1) (p := 0) (by decide +kernel) (by decide +kernel)
      exact absurd result (by decide +kernel)
    · have result := apart (s := 0) (p := -1) (by decide +kernel) (by decide +kernel)
      exact absurd result (by decide +kernel)
    · have result := apart (s := 1) (p := -0) (by decide +kernel) (by decide +kernel)
      exact absurd result (by decide +kernel)

theorem IsFactor.first (h : IsFactor context o) : ∀ c ∈ o.head?, c.isAlpha = true := by
  have letters {name : Text} (nonempty : name ≠ []) (letters : Letters name) (t : Text) :
      ∀ c ∈ (name ++ t).head?, c.isAlpha = true := by
    intro c head
    obtain ⟨d, s, rfl⟩ := List.exists_cons_of_ne_nil nonempty
    cases head
    exact letters _ (.head _)
  cases h with
  | name spelt tame =>
    have whole := letters tame.row.1 spelt []
    rwa [List.append_nil] at whole
  | applied f l => exact letters (name_ne_nil f) (letters_name f) _
  | called f => exact letters (name_ne_nil f) (letters_name f) _

/-- Directly behind a group a factor never makes a product: either the factor has no value, and then
no expression has one in which it stands so, or there are expressions with another value. -/
theorem keepsApart_iff (context : Context) (o : Text) (factor : IsFactor context o)
    (accepted : Accepted o) :
    KeepsApart context o ↔ ∀ v, (solveExpression context o).outcome ≠ .ok v := by
  have fate := factor.cases
  constructor
  · intro keeps v value
    rcases fate with ⟨e, failed⟩ | ⟨f, rest, argument, e, flat, read, failed⟩ | number
    · rw [failed.solveExpression] at value
      contradiction
    · obtain ⟨stop, found⟩ := read [] (.inr (.inl rfl))
      rw [List.append_nil] at stop found
      rw [flat.solveExpression] at value
      simp only [Except.bind] at value
      rw [solveSegment_outcome, solveCalls_fails (name_ne_nil f) (letters_name f) stop found failed]
        at value
      contradiction
    · exact not_keepsApart number accepted factor.first keeps
  · intro none before after v whole ended value
    have failed : (∃ e, Flattens context o (.error e)) ∨ FailsAsCall context o := by
      rcases fate with failed | failed | ⟨w, lead, r, y, flat, leave, sign, _, number, _⟩
      · exact .inl failed
      · exact .inr failed
      · exact absurd (solveExpression_of_denotes flat leave sign number) (none _)
    exact absurd value (no_value_behind factor.balanced failed (openAtEnd_of_check whole.checked) ended)

/-- The absolute value of two is no factor of a product behind a group. -/
theorem not_keepsApart_abs_two : IsFactor ⟨[], .degrees⟩ (callText .abs ['2']) ∧
    Accepted (callText .abs ['2']) ∧ ¬ KeepsApart ⟨[], .degrees⟩ (callText .abs ['2']) := by
  have row : IsTame ['2'] :=
    ⟨⟨by decide, by unfold Solid; decide⟩, .inl (by unfold Letterless; decide)⟩
  have two : Link.Valid ⟨none, [], ['2']⟩ := ⟨isLead_nil, .row row, nofun⟩
  have flat : Flattens ⟨[], .degrees⟩ ['2'] (.ok ['2']) :=
    flattens_of_flat (by decide) (by decide)
  have factor : IsFactor ⟨[], .degrees⟩ (callText .abs ['2']) := by
    refine .called .abs (.char (by decide) (by decide) .nil) fun value solved => ?_
    have single : (solveSegment ⟨[], .degrees⟩ ['2']).outcome = .ok (markValue ['2']) :=
      solveSegment_single two rfl
    rw [flat.solveGroups] at solved
    simp only [Except.bind, single] at solved
    cases solved
    exact ⟨(['{', '2', '}'], []), by decide⟩
  have accepted : Accepted (callText .abs ['2']) :=
    ⟨⟨[], callText .abs ['2'], by decide +kernel⟩, by decide +kernel⟩
  exact ⟨factor, accepted, fun keeps =>
    (keepsApart_iff ⟨[], .degrees⟩ _ factor accepted).1 keeps 2 solveExpression_abs_two⟩

end Reckoner
