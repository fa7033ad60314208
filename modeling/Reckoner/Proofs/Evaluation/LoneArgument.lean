import Reckoner.Proofs.Evaluation.Substitution
import Reckoner.Proofs.Expression.Constants

set_option autoImplicit false

namespace Reckoner

open Double

variable {context context' : Context} {x : Name} {v y : Float} {t u p a lead r argument tail : Text}
  {f : Function} {c : Char}

theorem IsArgumentSize.exists_cons (h : IsArgumentSize t) :
    ∃ c s, t = c :: s ∧ (c = 'I' ∨ isArgumentChar c = true) := by
  rcases h with rfl | ⟨nonempty, row⟩
  · exact ⟨_, _, rfl, .inl rfl⟩
  · obtain ⟨c, s, rfl⟩ := List.exists_cons_of_ne_nil nonempty
    exact ⟨c, s, rfl, .inr (row c (.head _))⟩

theorem head_name_ne (f : Function) : f.name.head? ≠ some 'I' := by
  cases f with
  | trig f => cases f <;> decide
  | _ => decide

/-- In an argument only its size stands behind what is neither a mark nor a character of an operand. -/
theorem argument?_behind_sign (found : argument? t = some (a ++ c :: u, tail))
    (row : isOperandChar c = false) (opening : c ≠ openMark) (closing : c ≠ closeMark) :
    ∃ size, IsArgumentSize size ∧ u = size ++ [closeMark] := by
  rcases argument?_shape found with chars | ⟨sign, size, same, lead, argumentSize⟩
  · rw [isOperandChar_of_isArgumentChar (chars c (by simp))] at row
    contradiction
  have behind : c ∉ size ++ [closeMark] := fun member => by
    rcases List.mem_append.1 member with inside | last
    · rw [argumentSize.row.2 c inside] at row
      contradiction
    · exact closing (List.mem_singleton.1 last)
  have single : sign.length ≤ 1 := by rcases lead with rfl | rfl | rfl <;> decide
  cases a with
  | nil => exact absurd (List.cons.inj same).1 opening
  | cons _ a =>
    rcases List.append_eq_append_iff.1 (List.cons.inj same).2 with ⟨e, rfl, last⟩ | ⟨e, _, last⟩
    · cases e with
      | nil => exact absurd (last ▸ .head u) behind
      | cons d e =>
        obtain ⟨rfl, rfl⟩ := List.cons.inj last
        simp only [List.length_append, List.length_cons] at single
        rw [List.eq_nil_of_length_eq_zero (l := e) (by omega)]
        exact ⟨size, argumentSize, rfl⟩
    · exact absurd (last ▸ List.mem_append_right e (.head u)) behind

/-- An argument that begins in front of an operator or a parenthesis does not reach into the name of
a function behind it. -/
theorem argument?_in_front (leads : c = '(' ∨ isOperator c = true)
    (found : argument? (a ++ c :: (f.name ++ u)) = some (argument, tail)) :
    ∃ b, tail = b ++ c :: (f.name ++ u) := by
  rcases List.append_eq_append_iff.1 (argument?_eq_append found) with
    ⟨b, rfl, after⟩ | ⟨b, rfl, after⟩
  swap
  · exact ⟨b, after⟩
  cases b with
  | nil => exact ⟨[], after.symm⟩
  | cons _ b =>
    obtain ⟨rfl, rest⟩ := List.cons.inj after
    have apart : isOperandChar c = false ∧ c ≠ openMark ∧ c ≠ closeMark := by
      rcases leads with rfl | operator
      · decide
      · obtain ⟨o, rfl⟩ := isOperator_iff.1 operator
        cases o <;> decide
    obtain ⟨size, argumentSize, rfl⟩ := argument?_behind_sign found apart.1 apart.2.1 apart.2.2
    obtain ⟨d, s, name⟩ := List.exists_cons_of_ne_nil (name_ne_nil f)
    obtain ⟨e, s', rfl, first⟩ := argumentSize.exists_cons
    have letter : d.isAlpha = true := letters_name f d (by rw [name]; exact .head _)
    have other := head_name_ne f
    rw [name] at rest other
    have same : d = e := (List.cons.inj rest).1
    subst same
    rcases first with rfl | digit
    · exact absurd rfl other
    · rw [not_isAlpha_of_isArgumentChar digit] at letter
      contradiction

/-- Where solving calls fails from some character on that stands in front of all names, it fails with
anything in front that leaves the rest as it is. -/
theorem solveCalls_fails_from (other : c.isAlpha = false)
    (cross : ∀ a argument tail, argument? (a ++ c :: u) = some (argument, tail) →
      ∃ b, tail = b ++ c :: u)
    (fails : ∀ done, ∃ e, (solveCalls context done (c :: u)).outcome = .error e) (done a : Text) :
    ∃ e, (solveCalls context done (a ++ c :: u)).outcome = .error e := by
  have passed {a : Text} (bare : Letterless a) (done : Text) :
      ∃ e, (solveCalls context done (a ++ c :: u)).outcome = .error e := by
    rw [solveCalls_append bare]
    exact fails _
  obtain ⟨whole, shape⟩ : ∃ t, t = a ++ c :: u := ⟨_, rfl⟩
  rw [← shape]
  induction whole using calls_induction generalizing done a with
  | letterless t bare =>
    subst shape
    exact passed (fun d member => bare d (List.mem_append_left _ member)) done
  | named p name t bare nonempty letters stop missed ih =>
    rcases append_name_eq letters other shape with ⟨w, rfl, _⟩ | ⟨b, rfl⟩
    · rw [shape]
      exact passed (fun d member => bare d (List.mem_append_left _ member)) done
    · rw [solveCalls_of_name bare nonempty letters stop missed]
      split
      · exact ⟨_, rfl⟩
      · exact ih _ b rfl
  | called p name t argument tail bare nonempty letters stop found ih ihInfinite =>
    rcases append_name_eq letters other shape with ⟨w, rfl, _⟩ | ⟨b, rfl⟩
    · rw [shape]
      exact passed (fun d member => bare d (List.mem_append_left _ member)) done
    · obtain ⟨b', rfl⟩ := cross b argument tail found
      rw [solveCalls_of_call bare nonempty letters stop found]
      cases solveCall context name argument with
      | error e => exact ⟨e, rfl⟩
      | ok x =>
        simp only [Except.bind]
        split
        · exact ihInfinite _ (infinityName ++ b') (List.append_assoc ..).symm
        · exact ih _ b' rfl

/-- The call of a function without an argument fails wherever an operand can begin. -/
theorem solveCalls_missing_behind (f : Function) (free : context.bindings.has f.name = false)
    (sign : IsLead lead) (h : IsRow r) (other : ¬ IsArgumentSize r) (leads : Leads p)
    (done t : Text) :
    ∃ e, (solveCalls context done (p ++ (f.name ++ (markValue (lead ++ r) ++ t)))).outcome =
      .error e := by
  have missing (done : Text) := solveCalls_missing f free sign h other done t
  rcases List.eq_nil_or_concat p with rfl | ⟨p, c, rfl⟩
  · exact ⟨_, missing done⟩
  rw [List.concat_eq_append] at leads ⊢
  have letterless := leads.not_isAlpha c (by simp)
  rw [List.append_assoc]
  refine solveCalls_fails_from letterless (fun a argument tail => argument?_in_front ?_)
    (fun done => ?_) done p
  · exact leads c (by simp)
  · rw [← List.singleton_append, solveCalls_append (List.forall_mem_singleton.2 letterless)]
    exact ⟨_, missing _⟩

/-- An operand can begin at a place where it can be exchanged. -/
theorem leads_of_admits (admits : (Place.start.run p).admits = true) : Leads p := by
  rcases List.eq_nil_or_concat p with rfl | ⟨p, c, rfl⟩
  · nofun
  rw [List.concat_eq_append] at admits ⊢
  rw [Place.run_snoc] at admits
  intro d last
  rw [List.getLast?_append] at last
  cases last
  unfold Place.step at admits
  split at admits
  next sign => exact .inr (by simp [isOperator, sign])
  next =>
    split at admits
    next binary => exact .inr (by simp [isOperator, binary])
    next =>
      split at admits
      · contradiction
      · split at admits
        next same => exact .inl same
        next => contradiction

theorem Lone.balanced (h : Lone x t) : Balanced t := by
  have front {lead u : Text} (sign : IsLead lead) (rest : Balanced u) : Balanced (lead ++ u) :=
    .append_flat (flat_of_isLead sign).1 (flat_of_isLead sign).2 rest
  induction h with
  | bare sign =>
    obtain ⟨open', close⟩ := flat_of_letters x.letters
    have text : Balanced (x.text ++ []) := .append_flat open' close .nil
    rw [List.append_nil] at text
    exact front sign text
  | group sign _ ih => exact front sign (.group ih .nil)

/-- The variable alone comes to its name, in as many marks as it had parentheses. -/
theorem Lone.flattens (h : Lone x t) (bound : context.bindings.get? x.text = some (.number v))
    (number : v.isNaN = false) (signed : v ≠ -0) :
    ∃ lead o o', Flattens context t (.ok (lead ++ o)) ∧ IsLead lead ∧ Stands x v o o' := by
  induction h with
  | @bare lead sign =>
    obtain ⟨open', close⟩ := flat_of_isLead sign
    obtain ⟨open'', close'⟩ := flat_of_letters x.letters
    exact ⟨lead, x.text, _, (flattens_of_flat open' close).append (flattens_of_flat open'' close'),
      sign, .bare⟩
  | @group lead t sign _ ih =>
    obtain ⟨lead', o, o', inner, sign', stands⟩ := ih
    obtain ⟨y, value, _⟩ := stands.values bound number signed
    have valid : Link.Valid ⟨none, lead', o⟩ := ⟨sign', value.tame, nofun⟩
    have solved : (solveSegment context (lead' ++ o)).outcome = .ok (markValue (lead' ++ o)) :=
      solveSegment_single valid rfl
    have group := inner.group
    simp only [Except.bind, solved] at group
    obtain ⟨open', close⟩ := flat_of_isLead sign
    exact ⟨lead, _, _, (flattens_of_flat open' close).append group, sign, .marked sign' stands⟩

/-- A function that is called with the variable alone misses its argument. -/
theorem Lone.call (h : Lone x t) (f : Function) (bound : context.bindings.get? x.text = some (.number v))
    (number : v.isNaN = false) (signed : v ≠ -0) : ∃ lead,
    Flattens context (callText f t) (.ok (f.name ++ markValue (lead ++ x.text))) ∧ IsLead lead := by
  obtain ⟨lead, o, o', inner, sign, stands⟩ := h.flattens bound number signed
  obtain ⟨y, value, _⟩ := stands.values bound number signed
  have valid : Link.Valid ⟨none, lead, o⟩ := ⟨sign, value.tame, nofun⟩
  have solved : (solveSegment context (lead ++ o)).outcome = .ok (markValue (lead ++ o)) :=
    solveSegment_single valid rfl
  obtain ⟨plain, row⟩ := stands.left
  obtain ⟨lead', same, sign'⟩ := plain.marks sign.signs
  rw [row] at same
  rw [same] at solved
  exact ⟨lead', flattens_callText inner solved, sign'⟩

/-- The expression fails, whatever else there is in it. -/
theorem CallsAlone.fails (h : CallsAlone context x t) (accepted : Accepted t)
    (bound : context.bindings.get? x.text = some (.number v)) (number : v.isNaN = false)
    (signed : v ≠ -0) : ∃ e, (solveExpression context t).outcome = .error e := by
  obtain ⟨p, f, u, q, rfl, leads, free, lone⟩ := h
  obtain ⟨lead, flat, sign⟩ := lone.call f bound number signed
  obtain ⟨r, place, evaluated⟩ := solveExpression_around (openAtEnd_of_check accepted.checked)
    (balanced_callText f lone.balanced) context
  rw [evaluated _ _ flat]
  cases r with
  | error e => exact ⟨e, rfl⟩
  | ok s =>
    have admits := admits_of_check accepted.checked leads
    rw [← (place s rfl).1] at admits
    obtain ⟨e, calls⟩ := solveCalls_missing_behind f free sign x.isWord.row x.not_isArgumentSize
      (leads_of_admits admits) [] s.2.1
    refine ⟨e, ?_⟩
    simp only [Except.bind]
    rw [solveSegment_outcome, List.append_assoc, calls]
    rfl

theorem name_eq_nil_of_last (f : Function) {p w : Text} (whole : p ++ w = f.name)
    (last : ∀ c ∈ p.getLast?, c.isAlpha = false) : p = [] := by
  rcases List.eq_nil_or_concat p with empty | ⟨s, c, rfl⟩
  · exact empty
  · rw [List.concat_eq_append] at whole last
    have letter := letters_name f c (by rw [← whole]; simp)
    rw [last c (by simp)] at letter
    contradiction

/-- The call of a function is an expression in which every name in front of a group is called. -/
theorem callsFunctions_callText (free : context.bindings.has f.name = false) (flat : '(' ∉ t) :
    CallsFunctions context (callText f t) := by
  intro u name rest shape nonempty letters last
  have opened : f.name ++ '(' :: (t ++ [')']) = (u ++ name) ++ '(' :: rest := by
    rw [List.append_assoc]
    exact shape
  have behind : '(' ∉ t ++ [')'] := by simp [flat]
  have whole : u ++ name = f.name :=
    ((List.append_cons_inj_of_notMem (name_flat f).1 behind).1 opened).1.symm
  have empty := name_eq_nil_of_last f whole last
  rw [empty, List.nil_append] at whole
  exact ⟨f, whole, free⟩

theorem namesApart_callText (flat : ')' ∉ t) : NamesApart (callText f t) := by
  intro u c rest shape
  have closed : (f.name ++ '(' :: t) ++ [')'] = u ++ ')' :: c :: rest := by
    rw [← shape, callText, List.append_assoc, List.cons_append]
  have front : ')' ∉ f.name ++ '(' :: t := by simp [flat, (name_flat f).2]
  have last := ((List.append_cons_inj_of_notMem front List.not_mem_nil).1 closed).2.2
  contradiction

/-- In the call of a function with the variable alone the variable is an operand. -/
theorem Name.complete_callText (x : Name) (f : Function) : x.Complete (callText f x.text) := by
  intro p q shape before after
  have cut : p ++ (x.text ++ q) = f.name ++ '(' :: (x.text ++ [')']) := shape.symm
  rcases append_name_eq x.letters (by decide) cut with ⟨w, rfl, inside⟩ | ⟨b, rfl⟩
  · cases w with
    | nil =>
      have close : q = [')'] := (List.append_cancel_left inside).symm
      subst close
      exact ⟨fun c last => by simp at last; exact .inl last.symm, fun c head => by
        cases head; exact .inl rfl⟩
    | cons e w =>
      have sizes := congrArg List.length inside
      simp only [List.length_append, List.length_cons, List.length_nil] at sizes
      have empty : w = [] ∧ q = [] :=
        ⟨List.eq_nil_of_length_eq_zero (by omega), List.eq_nil_of_length_eq_zero (by omega)⟩
      rw [empty.1, empty.2, List.append_nil] at inside
      have last := congrArg List.getLast? inside
      rw [List.getLast?_concat, List.getLast?_append_of_ne_nil _ x.nonempty] at last
      have letter := x.letters ')' (List.mem_of_getLast? last.symm)
      contradiction
  · have name : p ++ (x.text ++ b) = f.name := by
      have whole : (p ++ (x.text ++ b)) ++ '(' :: (x.text ++ [')']) =
          f.name ++ '(' :: (x.text ++ [')']) := by
        rw [← cut]
        simp
      exact List.append_cancel_right whole
    have front := name_eq_nil_of_last f name before
    rw [front, List.nil_append] at name
    cases b with
    | nil =>
      rw [List.append_nil] at name
      exact absurd name (x.ne_function f).symm
    | cons d b =>
      have letter := letters_name f d (by rw [← name]; simp)
      rw [after d rfl] at letter
      contradiction

theorem Name.numeric_constant (x : Name) (v : Float) : (x.constant v).Numeric := by
  intro name value found
  have entry : (if name == x.text then some (Constant.number v) else none) = some value := by
    rw [← found, Name.constant, Table.get?_cons, Table.get?_nil]
  split at entry
  · cases entry
    exact ⟨some v, rfl⟩
  · contradiction

/-- The operands of an expression in which the variable is always one on its own. -/
theorem Accepted.isWritten_complete (h : Accepted t) (names : NamesApart t)
    (calls : CallsFunctions context t) (complete : x.Complete t) :
    Written (fun f => IsAtom f ∧ ∀ l : Literal, f ≠ x.text ++ l.text) (IsCallName context)
      .whole t := by
  refine (h.isWritten_calls names calls).restrict (fun p f q shape leads atom => ?_)
    fun _ _ _ _ _ call => call
  refine ⟨atom, fun l applied => ?_⟩
  obtain ⟨c, s, text, digit⟩ := l.exists_cons
  have cut : t = p ++ (x.text ++ (c :: (s ++ q))) := by
    rw [shape, applied, text, List.append_assoc, List.cons_append]
  have delimits : Delimits p (c :: (s ++ q)) := by
    apply complete _ _ cut leads.not_isAlpha
    intro d head
    cases head
    exact not_isAlpha_of_isArgumentChar digit
  rcases delimits.after c rfl with rfl | operator
  · contradiction
  · obtain ⟨o, rfl⟩ := isOperator_iff.1 operator
    cases o <;> contradiction

/-- A variable and its value as a group mean the same in its place unless a function is called with
the variable alone: that call fails, and the two agree then just when the other side fails too. -/
theorem Name.substitution_iff (context context' : Context) (x : Name) (v : Float) (t : Text)
    (accepted : Accepted t) (names : NamesApart t) (calls : CallsFunctions context t)
    (complete : x.Complete t) (bound : context.bindings.get? x.text = some (.number v))
    (number : v.isNaN = false) (signed : v ≠ -0) (agree : AgreeBeside x context context') :
    ∃ t', replaceConstants (x.constant v) t = .ok t' ∧
      (Matches (fun a b => a = b) (solveExpression context t).outcome
          (solveExpression context' t').outcome ↔
        (CallsAlone context x t → ∃ e, (solveExpression context' t').outcome = .error e)) := by
  by_cases alone : CallsAlone context x t
  · obtain ⟨t', replaced⟩ := (x.numeric_constant v).replaceConstants t
    obtain ⟨e, failed⟩ := alone.fails accepted bound number signed
    refine ⟨t', replaced, ?_⟩
    rw [failed]
    constructor
    · intro same _
      cases other : (solveExpression context' t').outcome with
      | error e' => exact ⟨e', rfl⟩
      | ok y =>
        rw [other] at same
        exact absurd same id
    · intro fails
      obtain ⟨e', failed'⟩ := fails alone
      rw [failed']
      exact Matches.error e e'
  · have written := accepted.isWritten_complete names calls complete
    obtain ⟨t', replaced, same⟩ := (written.parallel agree bound number signed alone).solveExpression
      agree bound number signed
    exact ⟨t', replaced, fun _ lone => absurd lone alone, fun _ => same⟩

def nameN : Name := .ofLetter 'n' rfl

/-- The absolute value of a number in two pairs of parentheses. -/
theorem solveExpression_abs_group :
    (solveExpression ⟨[], .degrees⟩ (callText .abs (groupText 2))).outcome = .ok 2 := by
  have number : (2 : Float).isNaN = false := by decide
  have two : Link.Valid ⟨none, [], markValue (plain 2)⟩ :=
    ⟨isLead_nil, (denotes_markValue_plain ⟨[], .degrees⟩ number).tame, nofun⟩
  have call : Flattens ⟨[], .degrees⟩ (callText .abs (groupText 2)) (.ok (Function.abs.name ++
      markValue (Link.body ⟨none, [], markValue (plain 2)⟩))) :=
    flattens_callText (flattens_plain number) (solveSegment_single two rfl)
  have written : markValue (Link.body ⟨none, [], markValue (plain 2)⟩) = markValue ['2'] := by
    decide +kernel
  rw [written] at call
  have argument : argument? (markValue ['2']) = some (['{', '2', '}'], []) := by decide
  have leave := callsLeave_call (name_ne_nil .abs) (letters_name .abs) argument solveCall_abs_two
  have value : applyLead (valueSign 2) (ofMagnitude false (magnitude 2)) = 2 := by decide
  rw [solveExpression_of_leave call leave number, value]

/-- The absolute value of a variable that is two has no value, but that of the number has. -/
theorem nameN_substitution : Accepted (callText .abs nameN.text) ∧
    nameN.Complete (callText .abs nameN.text) ∧
    replaceConstants (nameN.constant 2) (callText .abs nameN.text) =
      .ok (callText .abs (groupText 2)) ∧
    ¬ Matches (fun a b => a = b)
      (solveExpression ⟨[(nameN.text, .number 2)], .degrees⟩ (callText .abs nameN.text)).outcome
      (solveExpression ⟨[], .degrees⟩ (callText .abs (groupText 2))).outcome := by
  have accepted : Accepted (callText .abs nameN.text) :=
    ⟨⟨[], callText .abs nameN.text, by decide +kernel⟩, by decide +kernel⟩
  have free : Table.has [(nameN.text, Binding.number 2)] Function.abs.name = false := by decide
  have agree : AgreeBeside nameN ⟨[(nameN.text, .number 2)], .degrees⟩ ⟨[], .degrees⟩ := by
    refine ⟨rfl, fun y other => ?_⟩
    simp [Table.get?_cons, other]
  have replaced : replaceConstants (nameN.constant 2) (callText .abs nameN.text) =
      .ok (callText .abs (groupText 2)) := by decide +kernel
  refine ⟨accepted, nameN.complete_callText .abs, replaced, fun same => ?_⟩
  obtain ⟨t', replaced', agrees⟩ := Name.substitution_iff ⟨[(nameN.text, .number 2)], .degrees⟩
    ⟨[], .degrees⟩ nameN 2 (callText .abs nameN.text) accepted (namesApart_callText (by decide))
    (callsFunctions_callText free (by decide)) (nameN.complete_callText .abs) (by decide)
    (by decide) (by decide) agree
  rw [replaced] at replaced'
  cases replaced'
  have alone : CallsAlone ⟨[(nameN.text, .number 2)], .degrees⟩ nameN (callText .abs nameN.text) :=
    ⟨[], .abs, nameN.text, [], by simp, nofun, free, .bare isLead_nil⟩
  obtain ⟨e, failed⟩ := agrees.1 same alone
  rw [solveExpression_abs_group] at failed
  contradiction

end Reckoner
