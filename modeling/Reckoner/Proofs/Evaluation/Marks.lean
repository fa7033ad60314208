import Reckoner.Proofs.Evaluation.LoneArgument
import Reckoner.Proofs.Evaluation.Pairs

set_option autoImplicit false

/- The marks of an evaluation. The value of a group is put in marks where the group stood. Behind an
operator they are those of an operand, and behind the name of a function those of an argument, which the
call takes away. Behind any other name they are dropped, but the sign in them is not, and what is in the
marks around them is no row any more. -/
namespace Reckoner

open Double Site

variable {context : Context} {p : Site} {t u v y d e rest name inner r lead : Text} {outer : List Text}
  {c : Char} {ahead : Ahead} {called : Bool}

theorem WellMarked.append (h : WellMarked t) (h' : WellMarked u) : WellMarked (t ++ u) := by
  induction h with
  | nil => exact h'
  | char unopened unclosed _ ih => exact .char unopened unclosed ih
  | pair sign row _ ih =>
    rw [List.cons_append, List.append_assoc, List.append_assoc]
    exact .pair sign row ih

theorem wellMarked_of_canonical (spelled : ∀ c ∈ t, isCanonicalChar c = true) : WellMarked t := by
  induction t with
  | nil => exact .nil
  | cons c t ih =>
    obtain ⟨first, rest⟩ := List.forall_mem_cons.1 spelled
    refine .char ?_ ?_ (ih rest) <;> (rintro rfl; exact absurd first (by decide))

/-- The beginnings of open groups go in front of a text. -/
theorem wellMarked_enclose {groups : List Text} (h : WellMarked t)
    (beginnings : ∀ b ∈ groups, WellMarked b.reverse) : WellMarked (enclose groups t) := by
  induction groups generalizing t with
  | nil => exact h
  | cons b groups ih =>
    obtain ⟨first, rest⟩ := List.forall_mem_cons.1 beginnings
    refine ih (.char (by decide) (by decide) ?_) rest
    rw [List.reverseAux_eq]
    exact first.append h

/-- In marks a row without calls is read to its end. -/
theorem Site.way_inside (row : Solid r) (free : CallFree name r) :
    ∃ name', Way Rules.drafted (inside called name) r (inside called name') := by
  induction r generalizing name with
  | nil => exact ⟨name, .nil _⟩
  | cons c r ih =>
    obtain ⟨operand, rest⟩ := List.forall_mem_cons.1 row
    by_cases letter : c.isAlpha = true
    · rw [callFree_letter letter] at free
      obtain ⟨name', way⟩ := ih rest free
      exact ⟨name', .cons (.goOn letter) way⟩
    · have other : c.isAlpha = false := by simpa using letter
      have digit : isArgumentChar c = true := by
        simpa [isOperandChar, isArgumentChar, other] using operand
      rw [callFree_other other] at free
      obtain ⟨name', way⟩ := ih rest free.2
      exact ⟨name', .cons (.count digit (free.1 digit)) way⟩

/-- A value in marks is read where marks can be. -/
theorem IsPair.way (h : IsPair v) (enters : Site.Step Rules.drafted p openMark (opened called false)) :
    Way Rules.drafted p v (outside (.closed called) []) := by
  obtain ⟨lead, r, sign, row, free, rfl⟩ := h
  refine .cons enters ?_
  have content (signed : Bool) :
      Way Rules.drafted (opened called signed) (r ++ [closeMark]) (outside (.closed called) []) := by
    obtain ⟨c, r, rfl⟩ := List.exists_cons_of_ne_nil row.1
    obtain ⟨first, rest⟩ := List.forall_mem_cons.1 row.2
    have behind : CallFree (firstName c) r := by
      by_cases letter : c.isAlpha = true
      · rw [firstName_of_letter letter]
        exact (callFree_letter letter).1 free
      · have other : c.isAlpha = false := by simpa using letter
        rw [firstName_of_other other]
        exact ((callFree_other other).1 free).2
    obtain ⟨name', way⟩ := way_inside rest behind
    exact .cons (.first first) (way.append (.cons (.leave trivial) (.nil _)))
  rcases sign with rfl | rfl | rfl
  · exact content false
  · exact .cons (.sign rfl) (content true)
  · exact .cons (.sign rfl) (content true)

theorem IsPair.run (h : IsPair v) (c : Char) : Slot.Run 1 1 (Slot.past c) v (.ended true) := by
  obtain ⟨lead, r, sign, row, _, rfl⟩ := h
  have content : Slot.Run 1 1 (.opened 0) (lead ++ r) (.ended false) :=
    Slot.run_lead_row sign row Nat.one_pos
  rw [← List.append_assoc]
  exact .cons (Slot.enter_past c) (content.append (.cons .leave (.nil _)))

/-- No name stands between a call and a group. -/
def CallsApart (t : Text) : Prop := ∀ u c s x v, c.isAlpha = true → Balanced s → Letters x →
  t ≠ u ++ c :: '(' :: (s ++ ')' :: (x ++ '(' :: v))

/-- What a text ends with where this stands right before a name: a group, or a number or a call. -/
def Ahead.Ends : Ahead → Text → Prop
  | nothing, _ => True
  | group, u => ∃ w, u = w ++ [')']
  | argument, u => (∃ w c, isArgumentChar c = true ∧ u = w ++ [c]) ∨
    ∃ w c s, c.isAlpha = true ∧ Balanced s ∧ u = w ++ c :: '(' :: (s ++ [')'])

structure EndsIn (d : Text) (ahead : Ahead) (name : Text) : Prop where
  shape : ∃ u, d = u ++ name ∧ (∀ c ∈ u.getLast?, c.isAlpha = false) ∧ ahead.Ends u
  letters : Letters name

theorem endsIn_nil : EndsIn [] .nothing [] :=
  ⟨⟨[], rfl, by rintro _ ⟨⟩, trivial⟩, List.forall_mem_nil _⟩

theorem endsIn_other (other : c.isAlpha = false) (ends : ahead.Ends (d ++ [c])) :
    EndsIn (d ++ [c]) ahead [] := by
  refine ⟨⟨d ++ [c], (List.append_nil _).symm, ?_, ends⟩, List.forall_mem_nil _⟩
  rw [List.getLast?_concat]
  rintro _ ⟨⟩
  exact other

theorem EndsIn.letter (h : EndsIn d ahead name) (letter : c.isAlpha = true) :
    EndsIn (d ++ [c]) ahead (name ++ [c]) := by
  obtain ⟨⟨u, rfl, other, ends⟩, letters⟩ := h
  exact ⟨⟨u, List.append_assoc .., other, ends⟩,
    List.forall_mem_append.2 ⟨letters, List.forall_mem_singleton.2 letter⟩⟩

/-- Right behind a number there is neither a name nor a group. -/
theorem not_follows_digit {a : Char} (digit : isArgumentChar c = true)
    (other : a.isAlpha = true ∨ a = '(') : follows c a = false := by
  have nowhere : a.isDigit = false ∧ a ≠ '.' ∧ isOperator a = false ∧ a ≠ ')' := by
    rcases other with letter | rfl
    · refine ⟨not_isDigit_of_isAlpha letter, ?_, ?_, ?_⟩
      · rintro rfl
        contradiction
      · rw [Bool.eq_false_iff]
        intro operator
        obtain ⟨o, rfl⟩ := isOperator_iff.1 operator
        cases o <;> contradiction
      · rintro rfl
        contradiction
    · decide
  unfold isArgumentChar at digit
  rcases Bool.or_eq_true_iff.1 digit with digit | point
  · rw [follows_digit digit]
    simp [nowhere]
  · obtain rfl : c = '.' := by simpa using point
    exact nowhere.1

/-- Right before a group there is nothing of the operand, or a name that calls a function. -/
theorem EndsIn.opens (h : EndsIn d ahead name) (calls : CallsFunctions context t)
    (apart : CallsApart t) (chained : Chained t) (shape : t = d ++ '(' :: v) :
    ∃ called, Site.Step Rules.drafted (outside ahead name) openMark (opened called false) ∧
      (called = true → ∃ w c, c.isAlpha = true ∧ d = w ++ [c]) := by
  obtain ⟨⟨u, rfl, other, ends⟩, letters⟩ := h
  rw [List.append_assoc] at shape
  have free : ahead ≠ .argument := by
    rintro rfl
    rcases ends with ⟨w, c, digit, rfl⟩ | ⟨w, c, s, letter, balanced, rfl⟩
    · obtain ⟨a, r, next, kind⟩ :
          ∃ a r, name ++ '(' :: v = a :: r ∧ (a.isAlpha = true ∨ a = '(') := by
        cases name with
        | nil => exact ⟨_, _, rfl, .inr rfl⟩
        | cons a r => exact ⟨_, _, rfl, .inl (letters a (.head _))⟩
      rw [next, List.append_assoc] at shape
      have follows := chained.follows shape
      rw [not_follows_digit digit kind] at follows
      contradiction
    · exact apart w c s name v letter balanced letters (by simpa using shape)
  rcases List.eq_nil_or_concat name with rfl | ⟨x, c, rfl⟩
  · cases ahead with
    | nothing => exact ⟨false, .enter, Bool.noConfusion⟩
    | group =>
      obtain ⟨w, rfl⟩ := ends
      rw [List.append_assoc] at shape
      have follows := chained.follows shape
      contradiction
    | argument => exact absurd rfl free
  · obtain ⟨f, name, _⟩ := calls u _ v shape (by simp) letters other
    rw [List.concat_eq_append] at letters name ⊢
    refine ⟨true, .call free ?_, fun _ => ⟨u ++ x, c, letters c (by simp), by simp⟩⟩
    have called : Function.ofName? (x ++ [c]) = some f := by rw [name, Function.ofName?_name]
    exact Option.isSome_iff_exists.2 ⟨f, called⟩

/-- The text of an open group, up to where the expression has been read. -/
structure Reading (d t : Text) : Prop where
  site : ∃ ahead name, EndsIn d ahead name ∧
    Way Rules.drafted (outside .nothing []) t (outside ahead name)
  slot : Slot.Run 1 1 (.free 0) t (Slot.past (d.getLastD '('))

theorem reading_nil : Reading [] [] :=
  ⟨⟨.nothing, [], endsIn_nil, .nil _⟩, .nil _⟩

theorem reading_opened (d : Text) : Reading (d ++ ['(']) [] := by
  refine ⟨⟨.nothing, [], endsIn_other rfl trivial, .nil _⟩, ?_⟩
  rw [List.getLastD_concat]
  exact .nil _

theorem Reading.wellMarked (h : Reading d t) : WellMarked t := by
  obtain ⟨ahead, name, _, way⟩ := h.site
  exact Admits.awaits ⟨ahead, name, way⟩

/-- Outside of parentheses the text of the group goes on with the expression. -/
theorem Reading.char (h : Reading d t) (spelled : isCanonicalChar (d.getLastD '(') = true)
    (next : follows (d.getLastD '(') c = true) (open' : c ≠ '(') (close : c ≠ ')') :
    Reading (d ++ [c]) (t ++ [c]) := by
  obtain ⟨⟨ahead, name, ends, way⟩, slot⟩ := h
  refine ⟨?_, ?_⟩
  · have digit (h : isArgumentChar c = true) : ∃ ahead name, EndsIn (d ++ [c]) ahead name ∧
        Way Rules.drafted (outside .nothing []) (t ++ [c]) (outside ahead name) :=
      ⟨.argument, [], endsIn_other (not_isAlpha_of_isArgumentChar h) (.inl ⟨d, c, h, rfl⟩),
        way.append (.cons (.digit h trivial) (.nil _))⟩
    have operator (h : isOperator c = true) : ∃ ahead name, EndsIn (d ++ [c]) ahead name ∧
        Way Rules.drafted (outside .nothing []) (t ++ [c]) (outside ahead name) := by
      have other : c.isAlpha = false := by
        obtain ⟨o, rfl⟩ := isOperator_iff.1 h
        cases o <;> rfl
      exact ⟨.nothing, [], endsIn_other other trivial, way.append (.cons (.operator h) (.nil _))⟩
    rcases canonicalChar_cases (isCanonicalChar_of_follows spelled next) with
      rfl | same | same | number | letter | sign | binary
    · exact digit rfl
    · exact absurd same open'
    · exact absurd same close
    · exact digit (by simp [isArgumentChar, number])
    · exact ⟨ahead, _, ends.letter letter, way.append (.cons (.letter letter) (.nil _))⟩
    · exact operator (by simp [isOperator, sign])
    · exact operator (by simp [isOperator, binary])
  · rw [List.getLastD_concat]
    exact slot.append (.cons (Slot.next_of_follows spelled next open' close) (.nil _))

/-- The value of a group goes where the group was. -/
theorem Reading.group (h : Reading d t) (calls : CallsFunctions context e) (apart : CallsApart e)
    (chained : Chained e) (shape : e = d ++ '(' :: r) (balanced : Balanced u) (value : IsPair v) :
    Reading (d ++ '(' :: (u ++ [')'])) (t ++ v) := by
  obtain ⟨⟨ahead, name, ends, way⟩, slot⟩ := h
  obtain ⟨called, enters, named⟩ := ends.opens calls apart chained shape
  have whole : d ++ '(' :: (u ++ [')']) = d ++ '(' :: u ++ [')'] := by simp
  rw [whole]
  refine ⟨⟨.closed called, [], endsIn_other rfl ?_, way.append (value.way enters)⟩, ?_⟩
  · cases called with
    | false => exact ⟨_, rfl⟩
    | true =>
      obtain ⟨w, c, letter, rfl⟩ := named rfl
      exact .inr ⟨w, c, u, letter, balanced, by simp⟩
  · rw [List.getLastD_concat]
    exact slot.append (value.run _)

theorem Reading.closes (h : Reading d t) (spelled : isCanonicalChar (d.getLastD '(') = true)
    (next : follows (d.getLastD '(') ')' = true) :
    Slot.Completes 1 1 (.free 0) t ∧ Admits Rules.drafted (outside .nothing []) t := by
  obtain ⟨closed, place⟩ := Slot.ended_of_follows spelled next
  obtain ⟨⟨ahead, name, _, way⟩, slot⟩ := h
  rw [place] at slot
  exact ⟨⟨closed, slot⟩, ahead, name, way⟩

theorem IsPair.wellMarked (h : IsPair v) : WellMarked v := by
  obtain ⟨lead, r, sign, row, _, rfl⟩ := h
  exact .pair sign row .nil

theorem Chained.spelled (h : Chained t) (shape : t ++ [')'] = d ++ rest) :
    ∀ c ∈ d ++ rest, Reckoner.isCanonicalChar c = true := by
  rw [← shape]
  exact List.forall_mem_append.2 ⟨h.isCanonicalChar, List.forall_mem_singleton.2 rfl⟩

theorem Chained.follows_last (h : Chained t) (shape : t ++ [')'] = d ++ c :: rest) :
    Reckoner.isCanonicalChar (d.getLastD '(') = true ∧ Reckoner.follows (d.getLastD '(') c = true := by
  have chain : List.IsChain (fun a b => Reckoner.follows a b = true) (('(' :: d) ++ c :: rest) := by
    rw [List.cons_append, ← shape]
    exact h
  refine ⟨?_, (List.isChain_append.1 chain).2.2 _ (by simp [List.getLast?_cons]) c rfl⟩
  rcases List.eq_nil_or_concat d with rfl | ⟨d, a, rfl⟩
  · rfl
  · rw [List.concat_eq_append, List.getLastD_concat]
    exact h.spelled shape a (by simp)

/-- What opens a group is in the expression, in front of its end. -/
theorem exists_behind_open (shape : e ++ [')'] = d ++ '(' :: rest) : ∃ r, e = d ++ '(' :: r := by
  rcases List.eq_nil_or_concat rest with rfl | ⟨r, c, rfl⟩
  · exact absurd (List.cons.inj (List.append_inj' shape rfl).2).1 (by decide)
  · rw [List.concat_eq_append, ← List.cons_append, ← List.append_assoc] at shape
    exact ⟨r, (List.append_inj' shape rfl).1⟩

/-- Where a group closes, its value is a pair of marks, and it is told of in a text with its marks well
formed. -/
theorem Reading.keeps_close {f : Text → Traced Failure Text} (h : Reading d inner.reverse)
    (free : FunctionsFree context.bindings) (chained : Chained e)
    (shape : e ++ [')'] = d ++ ')' :: rest) (beginnings : ∀ b ∈ outer, WellMarked b.reverse)
    (onward : ∀ v, IsPair v → (f v).Keeps Event.IsWellMarked WellMarked) :
    (Traced.emit (.groupFound (enclose (inner :: outer) (')' :: rest))) >>= fun _ =>
      solveSegment context inner.reverse >>= f).Keeps Event.IsWellMarked WellMarked := by
  obtain ⟨spelled, next⟩ := chained.follows_last shape
  obtain ⟨slot, site⟩ := h.closes spelled next
  have unmarked : WellMarked (')' :: rest) :=
    wellMarked_of_canonical (List.forall_mem_append.1 (chained.spelled shape)).2
  have whole : WellMarked (enclose (inner :: outer) (')' :: rest)) :=
    wellMarked_enclose unmarked (List.forall_mem_cons.2 ⟨h.wellMarked, beginnings⟩)
  refine (Traced.keeps_emit (List.forall_mem_singleton.2 whole)).bind fun _ _ => ?_
  exact (solveSegment_keeps free slot site).bind onward

/-- The groups of a part of an expression are solved with the marks well formed on the way. The induction
is on the groups. -/
theorem Balanced.keeps (h : Balanced t) (free : FunctionsFree context.bindings) (chained : Chained e)
    (calls : CallsFunctions context e) (apart : CallsApart e) (shape : e ++ [')'] = d ++ (t ++ rest))
    (reading : Reading d inner.reverse) (beginnings : ∀ b ∈ outer, WellMarked b.reverse)
    (onward : ∀ s, Reading (d ++ t) s.reverse →
      (solveGroups context outer s rest).Keeps Event.IsWellMarked WellMarked) :
    (solveGroups context outer inner (t ++ rest)).Keeps Event.IsWellMarked WellMarked := by
  induction h generalizing d outer inner rest with
  | nil =>
    rw [List.append_nil] at onward
    exact onward inner reading
  | @char c t open' close _ ih =>
    obtain ⟨spelled, next⟩ := chained.follows_last shape
    rw [List.cons_append, solveGroups, if_neg open', if_neg close]
    refine ih (d := d ++ [c]) (by rw [shape]; simp) ?_ beginnings fun s reading => onward s ?_
    · rw [List.reverse_cons]
      exact reading.char spelled next open' close
    · rwa [List.append_assoc] at reading
  | @group t u balanced _ ih ih' =>
    have opened : '(' :: (t ++ ')' :: u) ++ rest = '(' :: (t ++ ')' :: (u ++ rest)) := by simp
    rw [opened] at shape ⊢
    rw [solveGroups, if_pos rfl]
    refine ih (d := d ++ ['(']) (by rw [shape]; simp) (reading_opened d)
      (List.forall_mem_cons.2 ⟨reading.wellMarked, beginnings⟩) fun s inside => ?_
    rw [solveGroups, if_neg (by decide), if_pos rfl]
    refine inside.keeps_close free chained (by rw [shape]; simp)
      (List.forall_mem_cons.2 ⟨reading.wellMarked, beginnings⟩) fun v value => ?_
    refine ih' (d := d ++ '(' :: (t ++ [')'])) (by rw [shape]; simp) ?_ beginnings
      fun s behind => onward s ?_
    · obtain ⟨r, same⟩ := exists_behind_open shape
      rw [List.reverseAux_eq, List.reverse_append, List.reverse_reverse]
      exact reading.group calls apart chained same balanced value
    · simpa using behind

/-- The marks are well formed in every text on the way to the value of an expression. -/
structure MarksKept (context : Context) (t : Text) : Prop where
  shown : ∀ e ∈ (solveExpression context t).events, e.IsWellMarked
  last : ∀ w, (solveGroups context [] [] (t ++ [')'])).outcome = .ok w → WellMarked w

/-- Where only functions are called, and no name stands between a call and a group, the marks are kept. -/
theorem marksKept (accepted : Accepted t) (free : FunctionsFree context.bindings)
    (calls : CallsFunctions context t) (apart : CallsApart t) : MarksKept context t := by
  have chained := (accepted_iff.1 accepted).2.1
  have groups : (solveGroups context [] [] (t ++ [')'])).Keeps Event.IsWellMarked WellMarked := by
    refine accepted.balanced.keeps (d := []) free chained calls apart rfl reading_nil
      (List.forall_mem_nil _) fun s reading => ?_
    rw [solveGroups, if_neg (by decide), if_pos rfl]
    refine reading.keeps_close free chained rfl (List.forall_mem_nil _) fun v value => ?_
    rw [List.append_nil]
    exact Traced.keeps_pure value.wellMarked
  refine ⟨?_, groups.2⟩
  have silent {e : Event} (none : e.texts = []) : e.IsWellMarked := by
    intro w member
    rw [none] at member
    contradiction
  have whole : (solveExpression context t).Keeps Event.IsWellMarked fun _ => True := by
    refine (Traced.keeps_emit (silent rfl)).bind fun _ _ => groups.bind fun w _ => ?_
    refine (Traced.keeps_ofExcept _).bind fun x _ => ?_
    exact (Traced.keeps_emit (silent rfl)).bind fun _ _ => Traced.keeps_pure trivial
  exact whole.1

def oppositeBehind (y : Text) (n : Name) : Text := y ++ '(' :: '-' :: (n.text ++ [')'])

theorem isChain_letters (letters : Letters y) :
    List.IsChain (fun a b => follows a b = true) (y ++ [')']) := by
  induction y with
  | nil => exact List.isChain_singleton _
  | cons c y ih =>
    obtain ⟨letter, rest⟩ := List.forall_mem_cons.1 letters
    refine List.isChain_cons.2 ⟨fun d head => ?_, ih rest⟩
    rw [follows_letter letter]
    cases y with
    | nil =>
      cases head
      rfl
    | cons e y =>
      have next := rest e (.head _)
      cases head
      simp [isAlphanumeric, next]

/-- A name with or without a sign is an expression. -/
theorem accepted_signed (sign : IsLead lead) (some : y ≠ []) (letters : Letters y) :
    Accepted (lead ++ y) := by
  have spelled {c : Char} (other : c ∉ lead) (letter : c.isAlpha = false) : c ∉ lead ++ y := by
    intro member
    rcases List.mem_append.1 member with front | back
    · exact other front
    · rw [letters c back] at letter
      contradiction
  refine accepted_iff.2 ⟨?_, ?_, ?_⟩
  · have balanced : Balanced (lead ++ y ++ []) := by
      refine .append_flat (spelled ?_ rfl) (spelled ?_ rfl) .nil <;>
        rcases sign with rfl | rfl | rfl <;> decide
    rw [List.append_nil] at balanced
    exact balanced.closed 0 0
  · obtain ⟨c, y, rfl⟩ := List.exists_cons_of_ne_nil some
    have first : isAlphanumeric c = true := by simp [isAlphanumeric, letters c (.head _)]
    have rest := isChain_letters letters
    unfold Chained
    rw [List.append_assoc]
    rcases sign with rfl | rfl | rfl
    · refine List.isChain_cons_cons.2 ⟨?_, rest⟩
      show fitsAfterBinary c = true
      simp [fitsAfterBinary, first]
    all_goals
      refine List.isChain_cons_cons.2 ⟨rfl, List.isChain_cons_cons.2 ⟨?_, rest⟩⟩
      show fitsAfterSign c = true
      simp [fitsAfterSign, first]
  · intro u v w shape
    refine absurd (shape ▸ List.mem_append_right u (.head _)) (spelled ?_ rfl)
    rcases sign with rfl | rfl | rfl <;> decide

theorem accepted_oppositeBehind (some : y ≠ []) (letters : Letters y) (n : Name) :
    Accepted (oppositeBehind y n) := by
  have front : Accepted ([] ++ y) := accepted_signed isLead_nil some letters
  have opposite : Accepted (['-'] ++ n.text) := accepted_signed (.inr (.inr rfl)) n.nonempty n.letters
  refine Accepted.append front opposite.wrapped ?_ ?_
  · exact fun member => absurd (letters _ member) (by decide)
  · intro a last b first
    cases first
    rw [follows_letter (letters a (List.mem_of_getLast? last))]
    rfl

/-- Where the only group ends the expression, there is no other one behind it. -/
theorem callsApart_concat (flat : ')' ∉ t) : CallsApart (t ++ [')']) := by
  intro u c s x v _ _ _ shape
  rw [← List.cons_append, ← List.cons_append, ← List.append_assoc] at shape
  have last := ((List.append_cons_inj_of_notMem flat List.not_mem_nil).1 shape).2.2
  simp at last

theorem callsApart_oppositeBehind (letters : Letters y) (n : Name) :
    CallsApart (oppositeBehind y n) := by
  have whole : oppositeBehind y n = y ++ '(' :: '-' :: n.text ++ [')'] := by simp [oppositeBehind]
  rw [whole]
  refine callsApart_concat ?_
  simp [(flat_of_letters letters).2, (flat_of_letters n.letters).2]

/-- A minus behind a row in marks is in the way. -/
theorem not_wellMarked (row : IsRow y) (t : Text) :
    ¬ WellMarked (openMark :: (y ++ '-' :: t)) := by
  intro marked
  generalize whole : openMark :: (y ++ '-' :: t) = w at marked
  cases marked with
  | nil => contradiction
  | char unopened =>
    cases whole
    exact unopened rfl
  | @pair lead r u sign row' =>
    have same := (List.cons.inj whole).2
    have unsigned : lead = [] := by
      obtain ⟨c, y, rfl⟩ := List.exists_cons_of_ne_nil row.1
      have operand := row.2 c (.head _)
      rcases sign with rfl | rfl | rfl
      · rfl
      all_goals
        rw [(List.cons.inj same).1] at operand
        contradiction
    have behind := congrArg (List.dropWhile isOperandChar) same
    rw [unsigned, List.nil_append, dropWhile_row row.2 rfl, dropWhile_row row'.2 rfl] at behind
    exact absurd (List.cons.inj behind).1 (by decide)

/-- The marks go with the group that they are around, and the sign is left in those of the whole. -/
theorem not_marksKept_beside (some : y ≠ []) (letters : Letters y) (other : Function.ofName? y = none)
    (n : Name) (context : Context) : ¬ MarksKept context (oppositeBehind y n) := by
  intro kept
  have tame := isTame_letters some letters other
  have flattens : Flattens context (oppositeBehind y n) _ := flattens_beside letters n
  have groups : (solveGroups context [] [] (oppositeBehind y n ++ [')'])).outcome = _ :=
    flattens.solveGroups.trans (solveSegment_beside tame n)
  have marked := kept.last _ groups
  rw [List.append_assoc] at marked
  exact not_wellMarked tame.row _ marked

/-- The opposite of a variable as the argument of a function, right behind a call with an infinite
value. -/
def besideInfinity (g : Function) (n : Name) : Text :=
  callText .abs infinityName ++ oppositeBehind g.name n

theorem accepted_besideInfinity (g : Function) (n : Name) : Accepted (besideInfinity g n) := by
  have call : Accepted (callText .abs infinityName) :=
    ⟨⟨[], callText .abs infinityName, by decide +kernel⟩, by decide +kernel⟩
  refine call.append (accepted_oppositeBehind (name_ne_nil g) (letters_name g) n) (by decide) ?_
  intro a last b first
  obtain ⟨c, x, name⟩ := List.exists_cons_of_ne_nil (name_ne_nil g)
  have letter := letters_name g c (by rw [name]; exact .head _)
  rw [oppositeBehind, name] at first
  cases first
  cases last
  show (isOperator _ || _ == ')' || _) = true
  rw [letter, Bool.or_true]

/-- Expressions of which the first one closes a group. -/
theorem CallsFunctions.append (h : CallsFunctions context (t ++ [')'])) (h' : CallsFunctions context u) :
    CallsFunctions context (t ++ [')'] ++ u) := by
  intro p x v shape some letters other
  rw [List.append_assoc, List.singleton_append] at shape
  rcases append_name_eq letters (by decide) shape.symm with ⟨w, rfl, rest⟩ | ⟨b, rest⟩
  · refine h' w x v rest some letters fun c last => other c ?_
    rw [List.getLast?_append, List.getLast?_cons, last]
    rfl
  · cases b with
    | nil => exact absurd (List.cons.inj rest).1 (by decide)
    | cons d b =>
      obtain ⟨rfl, rfl⟩ := List.cons.inj rest
      refine h p x (b ++ [')']) ?_ some letters other
      have whole : t ++ ')' :: u = (p ++ (x ++ '(' :: b)) ++ ')' :: u := by simpa using shape
      rw [List.append_cancel_right whole]
      simp

theorem callsFunctions_besideInfinity (free : FunctionsFree context.bindings) (g : Function) (n : Name) :
    CallsFunctions context (besideInfinity g n) := by
  have call : CallsFunctions context (callText .abs infinityName) :=
    callsFunctions_callText (free .abs) (by decide)
  have opposite : CallsFunctions context (callText g ('-' :: n.text)) := by
    refine callsFunctions_callText (free g) ?_
    simp [(flat_of_letters n.letters).1]
  exact CallsFunctions.append (t := Function.abs.name ++ '(' :: infinityName) call opposite

theorem solveCall_abs_infinity (context : Context) :
    solveCall context Function.abs.name (markValue infinityName) = .ok (infinity false) := by
  have strip : stripMarks (markValue infinityName) = infinityName := by decide
  have size : Numeral.literal? infinityName = some (infinity false) := by decide +kernel
  have abs : (infinity false).abs = infinity false := by decide +kernel
  unfold solveCall
  rw [Function.ofName?_name, strip, size]
  change (if (Float.abs (infinity false)).isNaN then _ else _) = _
  rw [abs]
  rfl

/-- An infinite value is read as part of the name behind it. -/
theorem solveCalls_abs_infinity (t : Text) :
    (solveCalls context [] (Function.abs.name ++ (markValue infinityName ++ t))).outcome =
      (solveCalls context [] (infinityName ++ t)).outcome := by
  have found : argument? (markValue ([] ++ infinityName) ++ t) = some (markValue infinityName, t) :=
    argument?_marked_of_size isLead_nil isTame_infinityName.row (.inl rfl) t
  have call : (solveCalls context []
      ([] ++ (Function.abs.name ++ (markValue infinityName ++ t)))).outcome = _ :=
    solveCalls_of_call nofun (name_ne_nil .abs) (letters_name .abs) rfl found
  rw [List.nil_append, solveCall_abs_infinity] at call
  rw [call]
  rfl

/-- The name that an infinite value makes with that of a function loses the group behind it. -/
theorem not_marksKept_besideInfinity (g : Function) (n : Name) (context : Context) :
    ¬ MarksKept context (besideInfinity g n) := by
  intro kept
  have letters : Letters (infinityName ++ g.name) :=
    List.forall_mem_append.2 ⟨letters_infinityName, letters_name g⟩
  have other : Function.ofName? (infinityName ++ g.name) = none :=
    ofName?_of_mem (List.mem_append_left _ (by decide))
  have tame := isTame_letters (by simp [infinityName]) letters other
  have inner : Flattens context infinityName (.ok infinityName) := flattens_of_flat (by decide) (by decide)
  have call := flattens_callText (f := .abs) inner (solveSegment_tameOperand (.row isTame_infinityName))
  have flattens : Flattens context (besideInfinity g n) _ :=
    call.append (flattens_beside (letters_name g) n)
  have segment : (solveSegment context (Function.abs.name ++ markValue infinityName ++
      (g.name ++ markValue ('-' :: n.text)))).outcome =
      .ok (openMark :: (infinityName ++ g.name ++ '-' :: n.text ++ [closeMark])) := by
    rw [← solveSegment_beside tame n, solveSegment_outcome, solveSegment_outcome, List.append_assoc,
      solveCalls_abs_infinity, List.append_assoc]
  have marked := kept.last _ (flattens.solveGroups.trans segment)
  rw [List.append_assoc] at marked
  exact not_wellMarked tame.row _ marked

/-- In every expression in which only functions are called, and no name stands between a call and a group,
the marks are kept in all contexts that leave the functions their names. Neither condition can be left
out: right behind any other name there are groups with which the marks are lost in every context, and
there are right behind the name of any function, where an infinite value of a call stands before it. -/
theorem marksKept_sharp (context : Context) (t : Text) :
    (Accepted t → FunctionsFree context.bindings → CallsFunctions context t → CallsApart t →
      MarksKept context t) ∧
    (∀ x n, x ≠ [] → Letters x → Function.ofName? x = none → Accepted (oppositeBehind x n) ∧
      CallsApart (oppositeBehind x n) ∧ ¬ MarksKept context (oppositeBehind x n)) ∧
    ∀ g n, Accepted (besideInfinity g n) ∧
      (FunctionsFree context.bindings → CallsFunctions context (besideInfinity g n)) ∧
      ¬ MarksKept context (besideInfinity g n) := by
  refine ⟨?_, ?_, ?_⟩
  · intro accepted free calls apart
    exact marksKept accepted free calls apart
  · intro x n some letters other
    exact ⟨accepted_oppositeBehind some letters n, callsApart_oppositeBehind letters n,
      not_marksKept_beside some letters other n context⟩
  · intro g n
    refine ⟨accepted_besideInfinity g n, fun free => ?_, ?_⟩
    · exact callsFunctions_besideInfinity free g n
    · exact not_marksKept_besideInfinity g n context

/-- The marks are kept in the absolute value of a number, and lost behind a variable. -/
theorem marksKept_abs_two : MarksKept ⟨[], .degrees⟩ (callText .abs ['2']) ∧
    ¬ MarksKept ⟨[], .degrees⟩ (oppositeBehind nameN.text nameN) := by
  have accepted : Accepted (callText .abs ['2']) :=
    ⟨⟨[], callText .abs ['2'], by decide +kernel⟩, by decide +kernel⟩
  have apart : CallsApart (callText .abs ['2']) :=
    callsApart_concat (t := Function.abs.name ++ ['(', '2']) (by decide)
  obtain ⟨kept, lost, -⟩ := marksKept_sharp ⟨[], .degrees⟩ (callText .abs ['2'])
  refine ⟨kept accepted (fun _ => rfl) (callsFunctions_callText rfl (by decide)) apart, ?_⟩
  exact (lost nameN.text nameN nameN.nonempty nameN.letters nameN.notFunction).2.2

end Reckoner
