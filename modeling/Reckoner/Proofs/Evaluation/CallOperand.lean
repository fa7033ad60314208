import Reckoner.Proofs.Evaluation.Balanced
import Reckoner.Proofs.Evaluation.Terms
import Reckoner.Proofs.Expression.Acceptance
import Reckoner.Proofs.Text.Runs

set_option autoImplicit false

namespace Reckoner

open Double

variable {context : Context} {f : Function} {t u w name argument rest : Text} {x v : Float}

/-- A size that an argument can have. -/
def IsArgumentSize (t : Text) : Prop :=
  t = infinityName ∨ (t ≠ [] ∧ ∀ c ∈ t, isArgumentChar c = true)

theorem isArgumentSize_of_argumentSize? {size : Text}
    (h : argumentSize? t = some (size, rest)) : IsArgumentSize size := by
  unfold argumentSize? at h
  split at h
  next starts =>
    cases h
    refine .inr ⟨?_, fun c hc => List.all_eq_true.1 List.all_takeWhile c hc⟩
    cases t with
    | nil => contradiction
    | cons c t =>
      have head : isArgumentChar c = true := starts
      rw [List.takeWhile_cons_of_pos head]
      exact List.cons_ne_nil _ _
  next =>
    split at h
    · cases h
      exact .inl rfl
    · contradiction

theorem argumentSize?_append {size : Text} (h : IsArgumentSize size)
    (stop : startsWith isArgumentChar t = false) :
    argumentSize? (size ++ t) = some (size, t) := by
  unfold argumentSize?
  rcases h with rfl | ⟨nonempty, row⟩
  · have name : startsWith isArgumentChar (infinityName ++ t) = false := rfl
    have whole : infinityName.isPrefixOf (infinityName ++ t) = true :=
      List.isPrefixOf_iff_prefix.2 (List.prefix_append _ _)
    rw [name, if_neg Bool.false_ne_true, if_pos whole, List.drop_left]
  · have starts : startsWith isArgumentChar (size ++ t) = true := by
      cases size with
      | nil => contradiction
      | cons c size => exact row c (.head _)
    have ends : t.takeWhile isArgumentChar = [] ∧ t.dropWhile isArgumentChar = t := by
      cases t with
      | nil => exact ⟨rfl, rfl⟩
      | cons c t =>
        have head : isArgumentChar c = false := stop
        constructor <;> simp [head]
    rw [if_pos starts, List.takeWhile_append_of_pos row, List.dropWhile_append_of_pos row, ends.1,
      ends.2, List.append_nil]

theorem IsArgumentSize.row (h : IsArgumentSize t) : IsRow t := by
  rcases h with rfl | ⟨nonempty, row⟩
  · refine ⟨List.cons_ne_nil _ _, ?_⟩
    unfold Solid infinityName
    decide
  · exact ⟨nonempty, fun c hc => isOperandChar_of_isArgumentChar (row c hc)⟩

/-- An operand as it is looked up has no marks. -/
theorem not_mem_bareOperand {c : Char} (mark : c = openMark ∨ c = closeMark) (t : Text) :
    c ∉ bareOperand t := by
  rw [← stripMarks_bareOperand]
  intro member
  have kept := (List.mem_filter.1 member).2
  rcases mark with rfl | rfl <;> exact absurd kept (by decide)

theorem closeArgument?_eq_some {opening tail : Text} {found : Option (Text × Text)}
    (h : closeArgument? opening found = some (argument, tail)) :
    ∃ size, found = some (size, closeMark :: tail) ∧ argument = opening ++ size ++ [closeMark] := by
  unfold closeArgument? at h
  split at h
  next size rest =>
    cases h
    exact ⟨size, rfl, rfl⟩
  next => contradiction

/-- An argument is a row of digits and points, or a size in marks with a sign at most. -/
theorem argument?_shape (h : argument? t = some (argument, rest)) :
    (∀ c ∈ argument, isArgumentChar c = true) ∨ ∃ sign size,
      argument = openMark :: (sign ++ (size ++ [closeMark])) ∧ IsLead sign ∧
        IsArgumentSize size := by
  cases t with
  | nil => contradiction
  | cons d t =>
    by_cases marked : d = openMark
    · subst marked
      rw [argument?_mark] at h
      obtain ⟨size, read, rfl⟩ := closeArgument?_eq_some h
      exact .inr ⟨_, size, by simp, isLead_splitOne t, isArgumentSize_of_argumentSize? read⟩
    · rw [argument?_of_unmarked marked] at h
      split at h
      · cases h
        exact .inl fun c member => List.all_eq_true.1 List.all_takeWhile c member
      · contradiction

/-- A value in marks that is read as an argument is so as a whole, whatever follows. -/
theorem argument?_markValue_append {tail : Text}
    (h : argument? (markValue u ++ t) = some (argument, tail)) (w : Text) :
    argument? (markValue u ++ w) = some (markValue u, w) := by
  have shape (t : Text) : markValue u ++ t = openMark :: (bareOperand u ++ closeMark :: t) := by
    simp [markValue]
  rw [shape, argument?_mark] at h
  obtain ⟨size, found, _⟩ := closeArgument?_eq_some h
  have lead := isLead_splitOne (bareOperand u ++ closeMark :: t)
  have whole := splitOne_append isSign (bareOperand u ++ closeMark :: t)
  rw [argumentSize?_eq_append found, ← List.append_assoc] at whole
  generalize (splitOne isSign (bareOperand u ++ closeMark :: t)).1 = sign at lead whole
  have argumentSize := isArgumentSize_of_argumentSize? found
  have absent : closeMark ∉ sign ++ size := by
    simp only [List.mem_append, not_or]
    exact ⟨fun member => absurd (lead.signs _ member) (by decide),
      fun member => absurd (argumentSize.row.2 _ member) (by decide)⟩
  have same := (cut_at (not_mem_bareOperand (.inr rfl) u) t).1
  rw [← whole, (cut_at absent _).1] at same
  have stop : startsWith isArgumentChar (closeMark :: w) = false := by
    change isArgumentChar closeMark = false
    decide
  have marked : markValue u = openMark :: sign ++ size ++ [closeMark] := by
    simp only [markValue, ← same, List.cons_append]
  rw [shape, ← same, argument?_mark, List.append_assoc,
    splitOne_lead lead (argumentSize.row.unsigned _), argumentSize?_append argumentSize stop, marked]
  rfl

theorem argument?_markValue {tail : Text} (h : argument? (markValue u) = some (argument, tail))
    (t : Text) : argument? (markValue u ++ t) = some (argument, t) := by
  rw [← List.append_nil (markValue u)] at h
  have whole := argument?_markValue_append h
  rw [whole []] at h
  cases h
  exact whole t

/-- It is an argument whatever follows, or none. -/
theorem argument?_markValue_cases (u : Text) :
    (∀ t, argument? (markValue u ++ t) = some (markValue u, t)) ∨
      ∀ t, argument? (markValue u ++ t) = none := by
  by_cases found : ∃ t call, argument? (markValue u ++ t) = some call
  · obtain ⟨t, ⟨argument, tail⟩, found⟩ := found
    exact .inl (argument?_markValue_append found)
  · refine .inr fun t => ?_
    rw [Option.eq_none_iff_forall_ne_some]
    exact fun call same => found ⟨t, call, same⟩

/-- The link that a number is written as. -/
def writtenLink (x : Float) : Link := ⟨none, valueSign x, sizeText (magnitude x)⟩

theorem valid_writtenLink (x : Float) : (writtenLink x).Valid :=
  ⟨isLead_valueSign x, .row (isTame_sizeText _), nofun⟩

theorem body_writtenLink (number : x.isNaN = false) : (writtenLink x).body = plain x :=
  (plain_eq number).symm

theorem flattens_number (x : Float) : Flattens context (plain x) (.ok (plain x)) :=
  flattens_of_flat (fun member => absurd (mem_plain member) (by decide))
    fun member => absurd (mem_plain member) (by decide)

theorem reduceSigns_plain (number : x.isNaN = false) : reduceSigns (plain x) = plain x := by
  rw [plain_eq number, reduceSigns_append_row _ (isTame_sizeText _).row, (isLead_valueSign x).reduced]

theorem solveOperations_plain (number : x.isNaN = false) :
    (solveOperations context (plain x)).outcome = .ok (plain x) := by
  have solved : (solveOperations context (writtenLink x).body).outcome = _ :=
    solveOperations_single (valid_writtenLink x) rfl
  rwa [body_writtenLink number] at solved

theorem solveSegment_plain (number : x.isNaN = false) :
    (solveSegment context (plain x)).outcome = .ok (markValue (plain x)) := by
  have solved : (solveSegment context (writtenLink x).body).outcome = _ :=
    solveSegment_single (valid_writtenLink x) rfl
  rwa [body_writtenLink number] at solved

/-- A number in parentheses is solved to itself. -/
theorem flattens_plain (number : x.isNaN = false) :
    Flattens context ('(' :: (plain x ++ [')'])) (.ok (markValue (plain x))) := by
  have whole := (show Flattens context (plain x) _ from flattens_number x).group
  simp only [Except.bind, solveSegment_plain number] at whole
  exact whole

theorem letters_name (f : Function) : Letters f.name := by
  unfold Letters
  cases f with
  | trig f => cases f <;> decide
  | _ => decide

theorem name_ne_nil (f : Function) : f.name ≠ [] := by
  cases f with
  | trig f => cases f <;> decide
  | _ => decide

theorem plain_of_isInf (infinite : x.isInf = true) :
    plain x = signText (isNegative x) ++ infinityName := by
  have size := isInf_iff.1 infinite
  have number : x.isNaN = false := isNaN_eq_false_iff.2 (Nat.le_of_eq size)
  have nonzero : magnitude x ≠ 0 := by
    rw [size]
    decide
  have written : sizeText (magnitude x) = infinityName := by
    unfold sizeText
    rw [if_neg nonzero, if_pos size]
  rw [plain_of_nonzero number nonzero, written]

/-- A call gives way to its value, whatever stands around it. -/
theorem callsLeave_of_argument {o : Text} (nonempty : name ≠ []) (letters : Letters name)
    (stop : ∀ t, Ends t → startsWith Char.isAlpha (o ++ t) = false)
    (found : ∀ t, Ends t → argument? (o ++ t) = some (argument, t))
    (solved : solveCall context name argument = .ok x) : CallsLeave context (name ++ o) (plain x) := by
  intro done t ends
  have call : (solveCalls context done ([] ++ (name ++ (o ++ t)))).outcome = _ :=
    solveCalls_of_call nofun nonempty letters (stop t ends) (found t ends)
  rw [List.nil_append, solved] at call
  rw [List.append_assoc, call]
  simp only [Except.bind, List.append_nil]
  by_cases infinite : x.isInf = true
  · have tame : IsTame infinityName := by
      have size := isTame_sizeText infinityBits
      exact size
    rw [if_pos infinite, solveCalls_tame tame ends.startsWith_isAlpha ends.argument?,
      plain_of_isInf infinite, List.append_assoc]
  · rw [if_neg infinite]

/-- A call with its argument in marks gives way to its value. -/
theorem callsLeave_call (nonempty : name ≠ []) (letters : Letters name)
    (found : argument? (markValue u) = some (argument, rest))
    (solved : solveCall context name argument = .ok x) :
    CallsLeave context (name ++ markValue u) (plain x) :=
  callsLeave_of_argument nonempty letters (fun _ _ => rfl)
    (fun t _ => argument?_markValue found t) solved

def callText (f : Function) (t : Text) : Text := f.name ++ '(' :: (t ++ [')'])

/-- The group with this content comes to something that is read as an argument. -/
def IsArgument (context : Context) (t : Text) : Prop :=
  ∃ value call, (solveGroups context [] [] (t ++ [')'])).outcome = .ok value ∧
    argument? value = some call

theorem denotes_markValue_plain (context : Context) (number : x.isNaN = false) :
    Denotes context (markValue (plain x))
      (applyLead (valueSign x) (ofMagnitude false (magnitude x))) := by
  rw [plain_eq number]
  exact (denotes_sizeText context (isNaN_eq_false_iff.1 number)).markValue (isLead_valueSign x)

theorem plain_eq_of_alike (alike : Alike v x) (number : x.isNaN = false) : plain v = plain x := by
  rcases alike with rfl | ⟨zero, zero'⟩
  · rfl
  · rw [plain_of_zero zero, plain_of_zero zero']

theorem name_flat (f : Function) : '(' ∉ f.name ∧ ')' ∉ f.name :=
  ⟨fun mem => absurd (letters_name f _ mem) (by decide),
    fun mem => absurd (letters_name f _ mem) (by decide)⟩

/-- An expression that comes to one operand has what that stands for as its value. -/
theorem solveExpression_of_denotes {part o lead r : Text} {y : Float}
    (flat : Flattens context part (.ok o)) (leave : CallsLeave context o (lead ++ r))
    (sign : IsLead lead) (value : Denotes context r y) :
    (solveExpression context part).outcome = .ok (applyLead lead y) := by
  have valid : Link.Valid ⟨none, lead, r⟩ := ⟨sign, value.tame, nofun⟩
  have single : (solveOperations context (lead ++ r)).outcome = .ok (lead ++ r) :=
    solveOperations_single valid rfl
  have read := ((value.markValue sign).resolve isLead_nil).1
  rw [List.nil_append, applyLead_nil] at read
  rw [flat.solveExpression]
  simp only [Except.bind]
  rw [solveSegment_outcome, leave.alone]
  simp only [Except.bind, single]
  rw [Except.mapError, Except.map]
  simp only [read]
  rfl

/-- An expression that comes to one number has that as its value. -/
theorem solveExpression_of_leave {part o : Text} (flat : Flattens context part (.ok o))
    (leave : CallsLeave context o (plain x)) (number : x.isNaN = false) :
    (solveExpression context part).outcome =
      .ok (applyLead (valueSign x) (ofMagnitude false (magnitude x))) := by
  rw [plain_eq number] at leave
  exact solveExpression_of_denotes flat leave (isLead_valueSign x)
    (denotes_sizeText context (isNaN_eq_false_iff.1 number))

/-- The segment of a call on its own. -/
theorem flattens_callText {marked : Text} (inner : Flattens context t (.ok u))
    (solved : (solveSegment context u).outcome = .ok marked) :
    Flattens context (callText f t) (.ok (f.name ++ marked)) := by
  have name : Flattens context f.name (.ok f.name) :=
    flattens_of_flat (name_flat f).1 (name_flat f).2
  have whole := name.append inner.group
  simp only [Except.bind, solved] at whole
  exact whole

/-- The value of an expression that is a call is that of the call. -/
theorem exists_value_of_call (balanced : Balanced t)
    (called : context.bindings.has f.name = true → IsArgument context t)
    (value : (solveExpression context (callText f t)).outcome = .ok v) :
    ∃ o x, Flattens context (callText f t) (.ok o) ∧ o ≠ [] ∧ CallsLeave context o (plain x) ∧
      x.isNaN = false ∧ Alike v x := by
  obtain ⟨flat, inner⟩ := balanced.flattens context
  have whole : Flattens context (callText f t) _ :=
    (flattens_of_flat (name_flat f).1 (name_flat f).2).append inner.group
  have steps := value
  rw [whole.solveExpression] at steps
  obtain ⟨_, group, steps⟩ := bind_eq_ok steps
  obtain ⟨marked, content, rfl⟩ := map_eq_ok group
  obtain ⟨u, rfl, solved⟩ := bind_eq_ok content
  obtain ⟨u', rfl⟩ := solveSegment_marks solved
  rw [solveSegment_outcome] at steps
  obtain ⟨_, segment, _⟩ := bind_eq_ok steps
  obtain ⟨_, calls, _⟩ := bind_eq_ok segment
  have stop : startsWith Char.isAlpha (markValue u') = false := rfl
  cases found : argument? (markValue u') with
  | none =>
    rw [solveCalls_name (name_ne_nil f) (letters_name f) stop found] at calls
    split at calls
    · contradiction
    next kept =>
      have bound : context.bindings.has f.name = true := by
        simpa [Function.ofName?_name] using kept
      obtain ⟨w, call, same, read⟩ := called bound
      rw [inner.solveGroups] at same
      change (solveSegment context u).outcome = _ at same
      rw [solved] at same
      cases same
      rw [found] at read
      contradiction
  | some call =>
    obtain ⟨argument, tail⟩ := call
    rw [solveCalls_call (name_ne_nil f) (letters_name f) stop found] at calls
    obtain ⟨x, result, _⟩ := bind_eq_ok calls
    have number := solveCall_number result
    have leave := callsLeave_call (name_ne_nil f) (letters_name f) found result
    have flat := flattens_callText (f := f) inner solved
    rw [solveExpression_of_leave flat leave number] at value
    cases value
    exact ⟨_, x, flat, List.append_ne_nil_of_left_ne_nil (name_ne_nil f) _, leave, number,
      alike_written number⟩

def Only (a a' o o' : Text) : Prop := o = a ∧ o' = a'

theorem swapped_back {pair : Text → Text → Prop} {back : Text} (ends : Ends back) :
    ∃ q, Swapped pair .swapped back back q := by
  rcases ends with rfl | ⟨operator, r, rfl⟩
  · exact ⟨_, .nil _⟩
  · exact ⟨_, .char (fun _ => isOperator_iff.2 ⟨operator, rfl⟩) (.same r (Place.step_ne_swapped _ _))⟩

/-- A number without its sign stands for the same in marks. -/
theorem Only.values {a a' : Text} (number : x.isNaN = false)
    (h : Only (sizeText (magnitude x)) (markValue (sizeText (magnitude x))) a a') :
    ∃ y, Denotes context a y ∧ Denotes context a' y := by
  obtain ⟨rfl, rfl⟩ := h
  have size := denotes_sizeText context (isNaN_eq_false_iff.1 number)
  have marked := size.markValue isLead_nil
  rw [List.nil_append, applyLead_nil] at marked
  exact ⟨_, size, marked⟩

/-- A number that is in marks in one of two texts makes no difference to the operations. -/
theorem solveOperations_marked {q : Place} (number : x.isNaN = false)
    (h : Swapped (Only (sizeText (magnitude x)) (markValue (sizeText (magnitude x)))) .start t u q) :
    Matches (fun t u => markValue t = markValue u) (solveOperations context t).outcome
      (solveOperations context u).outcome := by
  refine (h.solveOperations (Only.values number)).mono fun t u ⟨_, h⟩ => ?_
  have row := (isTame_sizeText (magnitude x)).row
  have marks {a a' : Text}
      (h : Only (sizeText (magnitude x)) (markValue (sizeText (magnitude x))) a a') :
      stripMarks a = stripMarks a' := by
    obtain ⟨rfl, rfl⟩ := h
    rw [stripMarks_row row.2, stripMarks_markValue, bareOperand_row row]
  unfold markValue bareOperand
  rw [h.stripMarks marks]

theorem plain_of_nonnegative (number : x.isNaN = false) (positive : ¬ x < 0) :
    plain x = sizeText (magnitude x) := by
  have sign : valueSign x = [] := by
    unfold valueSign signText
    split
    · rfl
    next nonzero => rw [if_neg fun negative => positive (lt_zero_iff.2 ⟨negative, nonzero⟩)]
  rw [plain_eq number, sign, List.nil_append]

/-- A call between a text and the end of an operand is read as its value in marks would be. -/
theorem solveSegment_call {o front back : Text} (nonempty : o ≠ [])
    (leave : CallsLeave context o (plain x)) (number : x.isNaN = false) (positive : ¬ x < 0)
    (admits : (Place.start.run front).admits = true) (ends : Ends back) :
    Matches (fun a b => a = b) (solveSegment context (front ++ (o ++ back))).outcome
      (solveSegment context (front ++ (markValue (plain x) ++ back))).outcome := by
  have size := denotes_sizeText context (isNaN_eq_false_iff.1 number)
  have marked := size.markValue isLead_nil
  rw [List.nil_append, applyLead_nil] at marked
  rw [plain_of_nonnegative number positive] at leave ⊢
  obtain ⟨q, rest⟩ : ∃ q, Swapped (Only o (markValue (sizeText (magnitude x)))) .swapped back back q :=
    swapped_back ends
  have first : Swapped (Only o (markValue (sizeText (magnitude x)))) .start front front _ :=
    .same front Place.noConfusion
  have whole := first.append (.swap admits ⟨rfl, rfl⟩ rest)
  have calls {a a' : Text} (h : Only o (markValue (sizeText (magnitude x))) a a') :
      ∃ r r', Only (sizeText (magnitude x)) (markValue (sizeText (magnitude x))) r r' ∧ a ≠ [] ∧
        CallsLeave context a r ∧ CallsLeave context a' r' := by
    obtain ⟨rfl, rfl⟩ := h
    exact ⟨_, _, ⟨rfl, rfl⟩, nonempty, leave, fun done t ends => marked.tame.solveCalls ends done⟩
  rw [solveSegment_outcome, solveSegment_outcome]
  refine (whole.solveCalls calls).bind fun t u ⟨_, h⟩ => ?_
  exact (((solveOperations_marked number h).mapError _).mapError_right _).map fun _ _ same => same

/-- The number as a group. -/
def groupText (x : Float) : Text := '(' :: (plain x ++ [')'])

theorem balanced_callText (f : Function) (h : Balanced t) : Balanced (callText f t) :=
  .append_flat (name_flat f).1 (name_flat f).2 (.group h .nil)

/-- The part of an expression can stand for the number in it, whatever the expression is. -/
def StandsFor (context : Context) (part : Text) (x : Float) : Prop :=
  ∀ before after, Delimits before after → Accepted (before ++ (part ++ after)) →
    SameValue context (before ++ (part ++ after)) (before ++ (groupText x ++ after))

/-- A call whose value is not negative stands for it. -/
theorem standsFor_of_nonnegative (balanced : Balanced t)
    (called : context.bindings.has f.name = true → IsArgument context t)
    (value : (solveExpression context (callText f t)).outcome = .ok v) (positive : ¬ v < 0) :
    StandsFor context (callText f t) v := by
  intro before after delimits accepted
  obtain ⟨o, x, flat, nonempty, leave, number, alike⟩ :=
    exists_value_of_call balanced called value
  have written := plain_eq_of_alike alike number
  rw [alike.lt_zero_iff] at positive
  have closed := openAtEnd_of_check accepted.checked
  obtain ⟨r, place, evaluated⟩ :=
    solveExpression_around closed (balanced_callText f balanced) context
  have group : Flattens context (groupText v) (.ok (markValue (plain x))) := by
    unfold groupText
    rw [written]
    exact flattens_plain number
  unfold SameValue
  rw [evaluated _ _ flat, evaluated _ _ group]
  cases r with
  | error e => exact .error e e
  | ok s =>
    obtain ⟨here, ends, _⟩ := place s rfl
    have admits := admits_of_check accepted.checked delimits.before
    rw [← here] at admits
    refine (solveSegment_call nonempty leave number positive admits (ends delimits.after)).bind ?_
    rintro a _ rfl
    exact matches_refl _

def zeroExponent : Text := ['^', '0']

theorem Accepted.append_exponent (h : Accepted t) : Accepted (t ++ zeroExponent) := by
  have zero : Accepted ['0'] := ⟨⟨[], ['0'], by decide +kernel⟩, by decide +kernel⟩
  exact h.append_operator zero (by decide) fun b first => by
    cases first
    rfl

/-- To the power of zero an operand is one, and its sign stays outside. -/
theorem solveOperations_zeroExponent {o lead : Text} {y : Float} (value : Denotes context o y)
    (sign : IsLead lead) (number : y.isNaN = false) (nonzero : magnitude y ≠ 0) :
    (solveOperations context (lead ++ (o ++ zeroExponent))).outcome =
      .ok (Link.splice ⟨none, lead, o⟩ 1).body := by
  have base : Link.Valid ⟨none, lead, o⟩ := ⟨sign, value.tame, nofun⟩
  have zero : Denotes context ['0'] (ofMagnitude false 0) := denotes_sizeText context (Nat.zero_le _)
  have exponent : Link.Valid ⟨some .power, [], ['0']⟩ :=
    ⟨isLead_nil, zero.tame, fun operator same => by cases same; decide⟩
  have part : Part none lead ([⟨none, lead, o⟩] ++ [⟨some .power, [], ['0']⟩]) :=
    base.part.append exponent.part nofun
  have solved : (solveOperations context (linksText _)).outcome = _ := solveOperations_links part
  have text : linksText ([⟨none, lead, o⟩] ++ [⟨some .power, [], ['0']⟩]) =
      lead ++ (o ++ zeroExponent) := by
    simp [linksText, Link.symbol, Link.body, zeroExponent, Operator.symbol]
  have result := solve_of_denotes .power value zero isLead_nil isLead_nil
  rw [List.nil_append, List.nil_append, applyLead_nil, applyLead_nil,
    combine_power_zero number nonzero (by decide)] at result
  have powers : pass context .power ([⟨none, lead, o⟩] ++ [⟨some .power, [], ['0']⟩]) =
      .ok [Link.splice ⟨none, lead, o⟩ 1] := by
    change (Operation.solve context ⟨o, .power, ['0']⟩).bind _ = _
    rw [result]
    rfl
  have products : terms context ([⟨none, lead, o⟩] ++ [⟨some .power, [], ['0']⟩]) =
      .ok [Link.splice ⟨none, lead, o⟩ 1] := by
    unfold terms
    rw [powers]
    rfl
  rw [← text, solved, products]
  rfl

/-- The value of an operand with the exponent zero is one with its sign. -/
theorem solveExpression_zeroExponent {part w o lead : Text} {y : Float}
    (flat : Flattens context part (.ok w))
    (calls : (solveCalls context [] (w ++ zeroExponent)).outcome =
      .ok (lead ++ (o ++ zeroExponent)))
    (value : Denotes context o y) (sign : IsLead lead) (number : y.isNaN = false)
    (nonzero : magnitude y ≠ 0) :
    (solveExpression context (part ++ zeroExponent)).outcome = .ok (applyLead lead 1) := by
  have exponent : Flattens context zeroExponent (.ok zeroExponent) :=
    flattens_of_flat (by decide) (by decide)
  have one : Denotes context (sizeText (magnitude 1)) 1 := by
    have size : Denotes context (sizeText (magnitude 1)) (ofMagnitude false (magnitude 1)) :=
      denotes_sizeText context (by decide)
    have same : ofMagnitude false (magnitude 1) = 1 := by decide
    rw [same] at size
    exact size
  have unsigned : valueSign 1 = [] := by decide
  have marked := (one.markValue sign).resolve isLead_nil
  rw [List.nil_append, applyLead_nil] at marked
  have body : (Link.splice ⟨none, lead, o⟩ 1).body = lead ++ sizeText (magnitude 1) := by
    unfold Link.splice Link.body
    rw [unsigned, List.append_nil, sign.reduced]
  rw [(flat.append exponent).solveExpression]
  simp only [Except.bind, Except.map]
  rw [solveSegment_outcome, calls]
  simp only [Except.bind, solveOperations_zeroExponent value sign number nonzero, body]
  rw [Except.mapError, Except.map]
  simp only [marked.1]
  rfl

theorem ends_zeroExponent : Ends zeroExponent := .inr ⟨.power, ['0'], rfl⟩

theorem letterless_zeroExponent : Letterless zeroExponent := by
  unfold Letterless
  decide

/-- A call whose value is negative does not stand for it: its exponent is that of the size only. -/
theorem not_sameValue_of_negative (balanced : Balanced t)
    (called : context.bindings.has f.name = true → IsArgument context t)
    (value : (solveExpression context (callText f t)).outcome = .ok v) (negative : v < 0) :
    ¬ SameValue context ([] ++ (callText f t ++ zeroExponent))
      ([] ++ (groupText v ++ zeroExponent)) := by
  obtain ⟨o, x, flat, nonempty, leave, number, alike⟩ :=
    exists_value_of_call balanced called value
  have written := plain_eq_of_alike alike number
  rw [alike.lt_zero_iff] at negative
  obtain ⟨minus, nonzero⟩ := lt_zero_iff.1 negative
  have sign : valueSign x = ['-'] := by
    unfold valueSign
    rw [if_neg nonzero, minus]
    rfl
  have call : (solveExpression context (callText f t ++ zeroExponent)).outcome =
      .ok (applyLead ['-'] 1) := by
    have notNan := isNaN_eq_false_iff.1 number
    have size := denotes_sizeText context notNan
    have nonzero' : magnitude (ofMagnitude false (magnitude x)) ≠ 0 := by
      rw [magnitude_ofMagnitude _ notNan]
      exact nonzero
    have number' : (ofMagnitude false (magnitude x)).isNaN = false := by
      rw [isNaN_eq_false_iff, magnitude_ofMagnitude _ notNan]
      exact notNan
    refine solveExpression_zeroExponent flat ?_ size (.inr (.inr rfl)) number' nonzero'
    have calls := leave [] zeroExponent ends_zeroExponent
    rw [List.nil_append, solveCalls_of_letterless letterless_zeroExponent, plain_eq number, sign,
      List.append_assoc] at calls
    exact calls
  have group : (solveExpression context (groupText v ++ zeroExponent)).outcome =
      .ok (applyLead [] 1) := by
    have number' : v.isNaN = false := by rw [alike.isNaN_eq, number]
    have whole := denotes_markValue_plain context number'
    have same := alike_written number'
    refine solveExpression_zeroExponent (flattens_plain number') ?_ whole isLead_nil ?_ ?_
    · have calls : (solveCalls context [] (markValue (plain v) ++ zeroExponent)).outcome = _ :=
        whole.tame.solveCalls ends_zeroExponent []
      rw [solveCalls_of_letterless letterless_zeroExponent] at calls
      exact calls
    · rw [same.isNaN_eq, number']
    · rw [same.magnitude_eq, alike.magnitude_eq]
      exact nonzero
  unfold SameValue
  rw [List.nil_append, List.nil_append, call, group]
  intro same
  exact absurd (congrArg isNegative same) (by decide)

/-- A call acts as one operand, whatever expression it is in, if its value is not negative; and if
the value is negative, it does not. -/
theorem callText_standsFor (context : Context) (f : Function) (t : Text) (v : Float)
    (balanced : Balanced t) (called : context.bindings.has f.name = true → IsArgument context t)
    (value : (solveExpression context (callText f t)).outcome = .ok v) :
    (¬ v < 0 → StandsFor context (callText f t) v) ∧
      (Accepted (callText f t) → v < 0 → ¬ StandsFor context (callText f t) v) := by
  refine ⟨standsFor_of_nonnegative balanced called value, fun accepted negative stands => ?_⟩
  have delimits : Delimits [] zeroExponent :=
    ⟨nofun, fun c hc => by cases hc; exact .inr rfl⟩
  refine not_sameValue_of_negative balanced called value negative (stands _ _ delimits ?_)
  rw [List.nil_append]
  exact accepted.append_exponent

theorem solveCall_abs_two :
    solveCall ⟨[], .degrees⟩ Function.abs.name ['{', '2', '}'] = .ok 2 := by
  have strip : stripMarks ['{', '2', '}'] = ['2'] := by decide
  have two : Numeral.literal? ['2'] = some 2 := by decide +kernel
  have abs : (2 : Float).abs = 2 := by decide +kernel
  unfold solveCall
  rw [Function.ofName?_name, strip, two]
  change (if (Float.abs 2).isNaN then _ else _) = _
  rw [abs]
  rfl

/-- The absolute value of two. -/
theorem solveExpression_abs_two :
    (solveExpression ⟨[], .degrees⟩ (callText .abs ['2'])).outcome = .ok 2 := by
  have row : IsTame ['2'] :=
    ⟨⟨by decide, by unfold Solid; decide⟩, .inl (by unfold Letterless; decide)⟩
  have two : Link.Valid ⟨none, [], ['2']⟩ := ⟨isLead_nil, .row row, nofun⟩
  have flat : Flattens ⟨[], .degrees⟩ ['2'] (.ok ['2']) :=
    flattens_of_flat (by decide) (by decide)
  have call := flattens_callText (f := .abs) flat (solveSegment_single two rfl)
  have argument : argument? (markValue ['2']) = some (['{', '2', '}'], []) := by decide
  have leave := callsLeave_call (name_ne_nil .abs) (letters_name .abs) argument solveCall_abs_two
  have number : (2 : Float).isNaN = false := by decide
  have written : applyLead (valueSign 2) (ofMagnitude false (magnitude 2)) = 2 := by decide
  rw [solveExpression_of_leave call leave number, written]

theorem callText_abs_standsFor :
    (solveExpression ⟨[], .degrees⟩ (callText .abs ['2'])).outcome = .ok 2 ∧
      StandsFor ⟨[], .degrees⟩ (callText .abs ['2']) 2 := by
  have balanced : Balanced ['2'] := .char (by decide) (by decide) .nil
  have positive : ¬ (2 : Float) < 0 := by decide
  exact ⟨solveExpression_abs_two, (callText_standsFor ⟨[], .degrees⟩ .abs ['2'] 2 balanced nofun
    solveExpression_abs_two).1 positive⟩

end Reckoner
