import Reckoner.Proofs.Expression.Glyphs
import Reckoner.Proofs.Expression.Scientific

set_option autoImplicit false

namespace Reckoner

variable {constants : Table Text Constant} {raw r s t u v w before part after : Text} {a b c g : Char}
  {apart : Char → Char → Bool}

/-- What stands behind a row of glyphs matters to them only as far as it goes on with the row. -/
theorem isReplaced_append (apart : ∀ a ∈ (g :: t).getLast?, startsWith (sameFamily a) u = false) :
    isReplaced g (t ++ u) = isReplaced g t := by
  induction t generalizing g with
  | nil => exact isReplaced_of_apart (apart g rfl)
  | cons h t ih =>
    have later : isReplaced h (t ++ u) = isReplaced h t :=
      ih fun a last => apart a (List.mem_getLast?_cons last)
    rw [List.cons_append, isReplaced, isReplaced, later]

/-- What does not go on with a row of root signs, and has no mark of an index at the start, begins with
neither. -/
theorem not_rootOrMark (apart : startsWith (sameFamily '√') u = false)
    (head : u.head? ≠ some indexMark) :
    startsWith (fun c => isRootGlyph c || c == indexMark) u = false := by
  cases u with
  | nil => rfl
  | cons b u =>
    have family : sameFamily '√' b = false := apart
    have notRoot : isRootGlyph b = false := by
      simpa [sameFamily, isRootGlyph, isRaisedDigit] using family
    have notMark : b ≠ indexMark := fun same => head (congrArg some same)
    simp [startsWith, notRoot, notMark]

/-- The glyphs on both sides of a cut are replaced on their own, where the text behind it goes on with no
row of glyphs. -/
theorem allTurns_append (apart : ∀ a ∈ t.getLast?, startsWith (sameFamily a) u = false)
    (unmarked : t.getLast? ≠ some indexMark) (head : u.head? ≠ some indexMark) :
    allTurns (t ++ u) = allTurns t ++ allTurns u := by
  fun_induction allTurns t with
  | case1 => rfl
  | case2 c =>
    have other : (c == indexMark) = false :=
      beq_eq_false_iff_ne.2 fun same => unmarked (congrArg some same)
    have replaced : isReplaced c u = true := isReplaced_of_apart (apart c rfl)
    cases u with
    | nil => exact (List.append_nil _).symm
    | cons d u =>
      rw [List.singleton_append, allTurns, other, Bool.false_and, Bool.false_and,
        if_neg Bool.false_ne_true, if_pos replaced]
  | case3 c d r indexed ih =>
    have split := indexed
    simp only [Bool.and_eq_true, beq_iff_eq, Bool.not_eq_true'] at split
    obtain ⟨⟨rfl, rfl⟩, stop⟩ := split
    have stop' : startsWith (fun c => isRootGlyph c || c == indexMark) (r ++ u) = false := by
      cases r with
      | cons e r => exact stop
      | nil => exact not_rootOrMark (apart '√' rfl) head
    have inside {a : Char} (last : a ∈ r.getLast?) : a ∈ (indexMark :: '√' :: r).getLast? :=
      List.mem_getLast?_cons (List.mem_getLast?_cons last)
    have later : allTurns (r ++ u) = allTurns r ++ allTurns u :=
      ih (fun a last => apart a (inside last)) fun last => unmarked (inside last)
    rw [List.cons_append, List.cons_append, allTurns, stop', if_pos (by rfl), later]
    rfl
  | case4 c d r other ih =>
    have apart' : ∀ a ∈ (d :: r).getLast?, startsWith (sameFamily a) u = false := fun a last =>
      apart a (List.mem_getLast?_cons last)
    have replaced : isReplaced c (d :: r ++ u) = isReplaced c (d :: r) := isReplaced_append apart
    have other' : ¬ (c == indexMark && d == '√' &&
        !startsWith (fun c => isRootGlyph c || c == indexMark) (r ++ u)) = true := by
      cases r with
      | cons e r => exact other
      | nil =>
        intro both
        simp only [Bool.and_eq_true] at both
        exact other (by simp [startsWith, both.1.1, both.1.2])
    have later := ih apart' fun last => unmarked (List.mem_getLast?_cons last)
    rw [List.cons_append, List.cons_append, allTurns, if_neg other', ← List.cons_append, replaced, later,
      List.append_assoc]

theorem glyphReplacement_ne_nil (c : Char) : glyphReplacement c ≠ [] := by
  unfold glyphReplacement
  split <;> exact List.cons_ne_nil _ _

/-- A text ends as its last character is replaced. -/
theorem getLast?_allTurns (t : Text) :
    (allTurns t).getLast? = t.getLast?.bind fun c => (glyphReplacement c).getLast? := by
  have some (c : Char) : ∃ d, (glyphReplacement c).getLast? = some d :=
    ⟨_, List.getLast?_eq_some_getLast (glyphReplacement_ne_nil c)⟩
  have behind {r : Text} (w : Text) (c : Char)
      (ih : (allTurns r).getLast? = r.getLast?.bind fun c => (glyphReplacement c).getLast?)
      (alone : r = [] → w.getLast? = (glyphReplacement c).getLast?) :
      (w ++ allTurns r).getLast? = (c :: r).getLast?.bind fun c => (glyphReplacement c).getLast? := by
    rcases List.eq_nil_or_concat r with rfl | ⟨r, e, rfl⟩
    · rw [allTurns, List.append_nil]
      exact alone rfl
    · obtain ⟨d, last⟩ := some e
      rw [List.concat_eq_append, List.getLast?_concat, Option.bind_some, last] at ih
      rw [List.concat_eq_append, List.getLast?_append, ih, ← List.cons_append, List.getLast?_concat,
        Option.bind_some, last]
      rfl
  fun_induction allTurns t with
  | case1 => rfl
  | case2 c => rfl
  | case3 c d r indexed ih =>
    simp only [Bool.and_eq_true, beq_iff_eq] at indexed
    rw [List.getLast?_cons_cons, indexed.1.2]
    exact behind [rootMark] '√' ih fun _ => rfl
  | case4 c d r other ih =>
    rw [List.getLast?_append, ih, List.getLast?_cons_cons]
    obtain ⟨e, last⟩ : ∃ e, (d :: r).getLast? = Option.some e :=
      ⟨_, List.getLast?_eq_some_getLast (List.cons_ne_nil d r)⟩
    obtain ⟨f, last'⟩ := some e
    rw [last, Option.bind_some, last']
    rfl

/-- What ends with no closing mark has no inverse function at the end. -/
theorem getLast?_replaceInverse (last : t.getLast? = some c) (other : c ≠ closeMark) :
    (replaceInverse t).getLast? = some c := by
  have behind {r : Text} (w v : Text) (ends : v.getLast? = some closeMark)
      (ih : r.getLast? = some c → (replaceInverse r).getLast? = some c)
      (last : (v ++ r).getLast? = some c) : (w ++ replaceInverse r).getLast? = some c := by
    cases r with
    | nil =>
      rw [List.append_nil, ends] at last
      exact absurd (Option.some.inj last).symm other
    | cons d r =>
      rw [List.getLast?_append_of_ne_nil _ (List.cons_ne_nil d r)] at last
      rw [List.getLast?_append, ih last]
      rfl
  fun_induction replaceInverse t with
  | case1 r ih => exact behind ['a', 's', 'i', 'n'] ['s', 'i', 'n', '{', '-', '1', '}'] rfl ih last
  | case2 r ih => exact behind ['a', 'c', 'o', 's'] ['c', 'o', 's', '{', '-', '1', '}'] rfl ih last
  | case3 r ih => exact behind ['a', 't', 'a', 'n'] ['t', 'a', 'n', '{', '-', '1', '}'] rfl ih last
  | case4 d r _ _ _ ih =>
    cases r with
    | nil => exact last
    | cons e r =>
      rw [List.getLast?_cons_cons] at last
      rw [List.getLast?_cons, ih last]
      rfl
  | case5 => cases last

/-- A root sign at the end becomes an operator, and a mark of an index stays. -/
theorem getLast?_replaceGlyphs (last : t.getLast? = some c)
    (mark : isRootGlyph c = true ∨ c = indexMark) :
    (replaceGlyphs t).getLast? = some rootMark ∨ (replaceGlyphs t).getLast? = some indexMark := by
  have ends := getLast?_allTurns t
  rw [last, Option.bind_some] at ends
  rw [replaceGlyphs_eq_allTurns]
  rw [isRootGlyph_iff] at mark
  rcases mark with (rfl | rfl | rfl) | rfl
  · exact .inl (getLast?_replaceInverse ends (by decide))
  · exact .inl (getLast?_replaceInverse ends (by decide))
  · exact .inl (getLast?_replaceInverse ends (by decide))
  · exact .inr (getLast?_replaceInverse ends (by decide))

/-- A character that is no glyph and with which no notation of an inverse function begins. -/
def isOrdinary (c : Char) : Bool :=
  turn c == 5 && c != indexMark && c != 's' && c != 'c' && c != 't'

theorem isOrdinary_of_isArgumentChar (argument : isArgumentChar c = true) : isOrdinary c = true := by
  have apart {d : Char} (other : isArgumentChar d = false) : c ≠ d := by
    rintro rfl
    rw [argument] at other
    contradiction
  have notGlyph : turn c = 5 := by
    have bound : turn c ≤ 5 := by
      unfold turn
      split <;> omega
    by_contra less
    rcases turn_cases (g := c) (by omega) with rfl | rfl | rfl | rfl | rfl <;> contradiction
  have notMark : c ≠ indexMark := apart (by decide)
  simp [isOrdinary, notGlyph, notMark, apart (d := 's') (by decide), apart (d := 'c') (by decide),
    apart (d := 't') (by decide)]

theorem replaceInverse_cons (ordinary : isOrdinary c = true) (t : Text) :
    replaceInverse (c :: t) = c :: replaceInverse t := by
  simp only [isOrdinary, Bool.and_eq_true, bne_iff_ne] at ordinary
  rw [replaceInverse]
  · exact fun _ same => absurd same ordinary.1.1.2
  · exact fun _ same => absurd same ordinary.1.2
  · exact fun _ same => absurd same ordinary.2

theorem replaceGlyphs_cons (ordinary : isOrdinary c = true) (t : Text) :
    replaceGlyphs (c :: t) = c :: replaceGlyphs t := by
  have parts := ordinary
  simp only [isOrdinary, Bool.and_eq_true, bne_iff_ne, beq_iff_eq] at parts
  have glyphs : allTurns (c :: t) = c :: allTurns t := by
    have kept : glyphReplacement c = [c] := glyphReplacement_of_other (by omega)
    have notMark : (c == indexMark) = false := beq_eq_false_iff_ne.2 parts.1.1.1.2
    cases t with
    | nil => exact kept
    | cons d t =>
      rw [allTurns, notMark, Bool.false_and, Bool.false_and, if_neg Bool.false_ne_true, kept, ite_self]
      rfl
  rw [replaceGlyphs_eq_allTurns, replaceGlyphs_eq_allTurns, glyphs, replaceInverse_cons ordinary]

theorem replaceGlyphs_row (ordinary : ∀ c ∈ w, isOrdinary c = true) (t : Text) :
    replaceGlyphs (w ++ t) = w ++ replaceGlyphs t := by
  induction w with
  | nil => rfl
  | cons c w ih =>
    obtain ⟨first, rest⟩ := List.forall_mem_cons.1 ordinary
    rw [List.cons_append, replaceGlyphs_cons first, ih rest, List.cons_append]

/-- The digit of the index for which a root sign stands. -/
def rootIndex : Char → Char
  | '√' => '2'
  | '∛' => '3'
  | _ => '4'

theorem glyphReplacement_root (root : isRootGlyph g = true) :
    glyphReplacement g = ['(', rootIndex g, ')', rootMark] := by
  rcases isRootGlyph_iff.1 root with rfl | rfl | rfl <;> rfl

theorem replaceGlyphs_root (root : isRootGlyph g = true)
    (last : ∀ c ∈ t.getLast?, isRootGlyph c = false ∧ c ≠ indexMark) (nonempty : w ≠ [])
    (row : ∀ c ∈ w, isOrdinary c = true) (u : Text) :
    replaceGlyphs (t ++ g :: (w ++ u)) =
      replaceGlyphs t ++ (glyphReplacement g ++ (w ++ replaceGlyphs u)) := by
  have notMark : g ≠ indexMark := by
    rintro rfl
    contradiction
  have flat : isRaisedDigit g = false := by
    rcases isRootGlyph_iff.1 root with rfl | rfl | rfl <;> rfl
  have sign : allTurns (g :: (w ++ u)) = glyphReplacement g ++ allTurns (w ++ u) := by
    obtain ⟨d, w, rfl⟩ := List.exists_cons_of_ne_nil nonempty
    have ordinary := row d (.head _)
    simp only [isOrdinary, Bool.and_eq_true, beq_iff_eq] at ordinary
    have other : (g == indexMark) = false := beq_eq_false_iff_ne.2 notMark
    have replaced : isReplaced g (d :: (w ++ u)) = true := by
      rw [isReplaced, sameFamily_of_other ordinary.1.1.1.1]
      rfl
    rw [List.cons_append, allTurns, other, Bool.false_and, Bool.false_and, if_neg Bool.false_ne_true,
      if_pos replaced]
  have cut : allTurns (t ++ g :: (w ++ u)) = allTurns t ++ allTurns (g :: (w ++ u)) := by
    apply allTurns_append
    · intro a final
      show sameFamily a g = false
      rw [sameFamily, (last a final).1, flat, Bool.false_and, Bool.and_false]
      rfl
    · intro final
      exact (last _ final).2 rfl
    · intro same
      exact notMark (Option.some.inj same)
  have digit : isOrdinary (rootIndex g) = true := by
    rcases isRootGlyph_iff.1 root with rfl | rfl | rfl <;> decide
  have rest : replaceInverse (allTurns (w ++ u)) = w ++ replaceGlyphs u := by
    rw [← replaceGlyphs_eq_allTurns, replaceGlyphs_row row]
  rw [replaceGlyphs_eq_allTurns, cut, sign, glyphReplacement_root root]
  simp only [List.cons_append, List.nil_append]
  rw [replaceInverse_cut (by decide), replaceInverse_cons digit, replaceInverse_cons (by decide),
    replaceInverse_cons (by decide), rest, ← replaceGlyphs_eq_allTurns]

theorem Numeral.scientific?_row (row : ∀ c ∈ w, isDecimalDigit c = true)
    (stop : ∀ c ∈ u.head?, isDecimalDigit c = false ∧ c ≠ '.' ∧ c ≠ 'E') :
    scientific? (w ++ u) = none := by
  obtain ⟨front, back⟩ := digits_row row fun c head => (stop c head).1
  unfold scientific?
  rw [front, back]
  cases u with
  | nil => simp [splitPlaces]
  | cons c u =>
    obtain ⟨_, point, mark⟩ := stop c rfl
    simp [splitPlaces_of_no_point point, mark]

theorem Numeral.scientific?_rows (row : ∀ c ∈ w, isDecimalDigit c = true)
    (places : ∀ c ∈ v, isDecimalDigit c = true) (nonempty : v ≠ [])
    (stop : ∀ c ∈ u.head?, isDecimalDigit c = false ∧ c ≠ '.' ∧ c ≠ 'E') :
    scientific? (w ++ '.' :: (v ++ u)) = none := by
  obtain ⟨front, back⟩ := digits_row (r := '.' :: (v ++ u)) row fun c head => by
    cases head
    decide
  obtain ⟨front', back'⟩ := digits_row places fun c head => (stop c head).1
  have some : v.isEmpty = false := List.isEmpty_eq_false_iff.2 nonempty
  have pointed : splitPlaces ('.' :: (v ++ u)) = (v, u) := by
    rw [splitPlaces, front', back', some, if_neg Bool.false_ne_true]
  unfold scientific?
  rw [front, back, pointed]
  cases u with
  | nil => simp
  | cons c u => simp [(stop c rfl).2.2]

/-- Digits of no numeral with an exponent are passed over. -/
theorem expandScientific_row (row : ∀ c ∈ w, isDecimalDigit c = true)
    (stop : ∀ c ∈ u.head?, isDecimalDigit c = false) (missed : Numeral.scientific? (w ++ u) = none) :
    expandScientific (w ++ u) = w ++ expandScientific u := by
  cases w with
  | nil => rfl
  | cons c w =>
    obtain ⟨first, rest⟩ := List.forall_mem_cons.1 row
    have same : continuesDigits c = isDecimalDigit := by
      funext d
      rw [continuesDigits, first, Bool.true_and]
    obtain ⟨front, back⟩ := Numeral.digits_row rest stop
    unfold Numeral.digits at front
    unfold Numeral.afterDigits at back
    rw [List.cons_append] at missed ⊢
    rw [expandScientific_of_none missed, same, front, back]
    rfl

theorem Literal.expandScientific_append (l : Literal)
    (stop : ∀ c ∈ u.head?, isDecimalDigit c = false ∧ c ≠ '.' ∧ c ≠ 'E') :
    expandScientific (l.text ++ u) = l.text ++ expandScientific u := by
  have whole : ∀ c ∈ l.whole, isDecimalDigit c = true := fun c member =>
    isDecimalDigit_of_isDigit (l.row c member)
  have places : ∀ c ∈ l.places, isDecimalDigit c = true := fun c member =>
    isDecimalDigit_of_isDigit (l.digits c (List.mem_append_right _ member))
  have digitless : ∀ c ∈ u.head?, isDecimalDigit c = false := fun c head => (stop c head).1
  unfold text
  split
  · exact expandScientific_row whole digitless (Numeral.scientific?_row whole stop)
  next some =>
    have point : ∀ c ∈ ('.' :: (l.places ++ u)).head?, isDecimalDigit c = false := by
      intro c head
      cases head
      decide
    rw [List.append_assoc, List.cons_append,
      expandScientific_row whole point (Numeral.scientific?_rows whole places some stop),
      expandScientific_cons (by decide),
      expandScientific_row places digitless (Numeral.scientific?_row places stop), List.append_assoc,
      List.cons_append]

/-- The text can stand behind an operand: nothing, or what begins with an operator or the end of a
group. -/
def LeavesOperand (t : Text) : Prop := ∀ c ∈ t.head?, c = ')' ∨ isOperator c = true

theorem leavesOperand_nil : LeavesOperand [] := nofun

theorem leavesOperand_cons (c : Char) : LeavesOperand (c :: t) ↔ c = ')' ∨ isOperator c = true :=
  ⟨fun h => h c rfl, fun h d head => by cases head; exact h⟩

/-- The characters behind an operand are kept by all steps. -/
theorem kept_of_leaves (leaves : c = ')' ∨ isOperator c = true) :
    isConstantChar c = false ∧ c ≠ ' ' ∧ isDecimalDigit c = false ∧ c ≠ '.' ∧ c ≠ 'E' ∧
      isOrdinary c = true := by
  rcases leaves with rfl | operator
  · decide
  · obtain ⟨o, rfl⟩ := isOperator_iff.1 operator
    cases o <;> decide

theorem LeavesOperand.replaceConstants (h : LeavesOperand t)
    (replaced : Reckoner.replaceConstants constants t = .ok u) : LeavesOperand u := by
  cases t with
  | nil =>
    rw [Reckoner.replaceConstants] at replaced
    cases replaced
    exact h
  | cons c t =>
    have leaves := h c rfl
    rw [Reckoner.replaceConstants, if_neg (by simp [(kept_of_leaves leaves).1])] at replaced
    obtain ⟨u, _, rfl⟩ := map_eq_ok replaced
    exact (leavesOperand_cons c).2 leaves

theorem LeavesOperand.removeSpaces (h : LeavesOperand t) : LeavesOperand (Reckoner.removeSpaces t) := by
  cases t with
  | nil => exact h
  | cons c t =>
    have leaves := h c rfl
    have kept : (c != ' ') = true := bne_iff_ne.2 (kept_of_leaves leaves).2.1
    rw [Reckoner.removeSpaces, List.filter_cons, if_pos kept]
    exact (leavesOperand_cons c).2 leaves

theorem LeavesOperand.replaceGlyphs (h : LeavesOperand t) : LeavesOperand (Reckoner.replaceGlyphs t) := by
  cases t with
  | nil => exact nofun
  | cons c t =>
    have leaves := h c rfl
    rw [replaceGlyphs_cons (kept_of_leaves leaves).2.2.2.2.2]
    exact (leavesOperand_cons c).2 leaves

theorem LeavesOperand.spelledOut (h : LeavesOperand t) : LeavesOperand (Reckoner.spelledOut t) := by
  have spaceless := h.removeSpaces
  unfold Reckoner.spelledOut
  cases shape : Reckoner.removeSpaces t with
  | nil =>
    rw [expandScientific, reduceSigns_nil]
    exact leavesOperand_nil
  | cons c t =>
    have leaves := spaceless c (by rw [shape]; rfl)
    rw [expandScientific_cons (kept_of_leaves leaves).2.2.1, reduceSigns_cons]
    by_cases sign : isSign c = true
    · intro d head
      have starts := startsWith_attachSign c (reduceSigns (expandScientific t))
      rw [startsWith, head, Option.any_some, sign] at starts
      exact .inr (by simp [isOperator, starts])
    · rw [attachSign_of_not_isSign (by simpa using sign)]
      exact (leavesOperand_cons c).2 leaves

theorem LeavesOperand.glyphText (h : LeavesOperand t)
    (named : Reckoner.glyphText constants t = .ok u) : LeavesOperand u := by
  obtain ⟨t', replaced, rfl⟩ := map_eq_ok named
  exact (h.replaceConstants replaced).spelledOut

/-- A numeral at the start of a text is spelled out as it is. -/
theorem Literal.glyphText_append (l : Literal) (leaves : LeavesOperand t) :
    glyphText constants (l.text ++ t) = (glyphText constants t).map fun u => l.text ++ u := by
  have argument {c : Char} (member : c ∈ l.text) : isArgumentChar c = true := l.mem_text member
  have cut : CutBetween l.text t := .inl fun c last =>
    not_isConstantChar_of_isArgumentChar (argument (List.mem_of_mem_getLast? last))
  have spaceless : Reckoner.removeSpaces l.text = l.text := by
    refine List.filter_eq_self.2 fun c member => bne_iff_ne.2 ?_
    rintro rfl
    exact absurd (argument member) (by decide)
  unfold glyphText
  rw [replaceConstants_append cut, replaceConstants_of_none fun _ member =>
    not_isConstantChar_of_isArgumentChar (argument member)]
  cases replaced : replaceConstants constants t with
  | error m => rfl
  | ok u =>
    have leaves' := (leaves.replaceConstants replaced).removeSpaces
    have expanded := l.expandScientific_append fun c head => by
      obtain ⟨_, _, digit, point, mark, _⟩ := kept_of_leaves (leaves' c head)
      exact ⟨digit, point, mark⟩
    have spelled : spelledOut (l.text ++ u) = l.text ++ spelledOut u := by
      have spaces : removeSpaces (l.text ++ u) = l.text ++ removeSpaces u := by
        rw [removeSpaces, List.filter_append]
        exact congrArg (· ++ _) spaceless
      unfold spelledOut
      rw [spaces, expanded]
      exact l.isRow.reduceSigns_append [] _
    exact congrArg Except.ok spelled

theorem insertBetween_star (before : ∀ a, apart a '*' = false) (behind : ∀ b, apart '*' b = false)
    (t u : Text) :
    insertBetween apart (t ++ '*' :: u) = insertBetween apart t ++ '*' :: insertBetween apart u := by
  have front : insertBetween apart (t ++ '*' :: u) = _ ++ insertBetween apart ('*' :: u) :=
    insertBetween_append fun a _ b head => by
      cases head
      exact before a
  have back : insertBetween apart (['*'] ++ u) = insertBetween apart ['*'] ++ _ :=
    insertBetween_append fun a last b _ => by
      cases last
      exact behind b
  rw [front]
  exact congrArg _ back

/-- A product is marked between two texts. -/
theorem insertBetween_joint (last : a ∈ t.getLast?) (head : b ∈ u.head?) (pair : apart a b = true) :
    insertBetween apart (t ++ u) = insertBetween apart t ++ '*' :: insertBetween apart u := by
  obtain ⟨u, rfl⟩ := List.head?_eq_some_iff.1 head
  induction t with
  | nil => cases last
  | cons c t ih =>
    cases t with
    | nil =>
      obtain rfl : c = a := Option.some.inj last
      rw [List.singleton_append, insertBetween, if_pos pair]
      rfl
    | cons d t =>
      rw [List.getLast?_cons_cons] at last
      rw [List.cons_append, List.cons_append, insertBetween, insertBetween, ← List.cons_append, ih last]
      split <;> rfl

/-- The text as a factor in front of a group, if it ends with one. -/
def asFactor (t : Text) : Text := if t.getLast?.any (isFactorPair · '(') then t ++ ['*'] else t

theorem markProducts_group (t u : Text) :
    markProducts (t ++ '(' :: u) = asFactor (markProducts t) ++ markProducts ('(' :: u) := by
  rcases List.eq_nil_or_concat t with rfl | ⟨t, a, rfl⟩
  · rfl
  rw [List.concat_eq_append, asFactor, getLast?_markProducts, List.getLast?_concat, Option.any_some]
  have last : a ∈ (t ++ [a]).getLast? := List.getLast?_concat
  have digit : ('(').isDigit = false := by decide
  have star : ('*').isDigit = false := by decide
  have letter : ('*').isAlpha = false := by decide
  have numberFirst (t u : Text) : insertBetween isNumberFirst (t ++ '*' :: u) = _ :=
    insertBetween_star (by simp [isNumberFirst, letter]) (by simp [isNumberFirst, star]) t u
  have numberLast (t u : Text) : insertBetween isNumberLast (t ++ '*' :: u) = _ :=
    insertBetween_star (by simp [isNumberLast, star]) (by simp [isNumberLast]) t u
  split
  next pair =>
    have shape (t u : Text) : t ++ ['*'] ++ u = t ++ '*' :: u := List.append_assoc ..
    rw [shape]
    unfold markProducts
    by_cases close : a = ')'
    · subst close
      have groups : insertBetween isGroupPair ((t ++ [')']) ++ '(' :: u) = _ :=
        insertBetween_joint last rfl rfl
      rw [groups, numberFirst, numberLast]
    · have first : isNumberFirst a '(' = true := by
        simpa [isFactorPair, isGroupPair, isNumberLast, close] using pair
      have groups : insertBetween isGroupPair ((t ++ [a]) ++ '(' :: u) = _ ++ _ :=
        insertBetween_append fun b last b' head => by
          rw [List.getLast?_concat] at last
          cases last
          cases head
          simp [isGroupPair, close]
      have last' : a ∈ (insertBetween isGroupPair (t ++ [a])).getLast? := by
        rw [getLast?_insertBetween]
        exact last
      have head' : '(' ∈ (insertBetween isGroupPair ('(' :: u)).head? := insertBetween_cons _ _ _
      rw [groups, insertBetween_joint last' head' first, numberLast]
  next none =>
    apply markProducts_append
    intro b last b' head
    rw [List.getLast?_concat] at last
    cases last
    cases head
    simpa using none

theorem Literal.chained (l : Literal) : Chained l.text := by
  unfold text
  split
  · exact chained_row l.row l.nonempty
  next some =>
    exact chained_rows l.row l.nonempty (fun c member => l.digits c (List.mem_append_right _ member)) some

def rootText (g : Char) (l : Literal) : Text := glyphReplacement g ++ l.text

theorem rootText_eq (root : isRootGlyph g = true) (l : Literal) :
    rootText g l = '(' :: rootIndex g :: ')' :: rootMark :: l.text := by
  rw [rootText, glyphReplacement_root root]
  rfl

theorem Literal.head_text (l : Literal) : ∀ c ∈ l.text.head?, c.isDigit = true := by
  obtain ⟨d, w, shape⟩ := List.exists_cons_of_ne_nil l.nonempty
  have digit : d.isDigit = true := l.row d (by rw [shape]; exact .head _)
  have first : l.text.head? = some d := by
    unfold text
    split <;> rw [shape] <;> rfl
  intro c head
  rw [first] at head
  cases head
  exact digit

theorem chained_rootText (root : isRootGlyph g = true) (l : Literal) : Chained (rootText g l) := by
  have index : Chained ['(', rootIndex g, ')'] := by
    unfold Chained
    rcases isRootGlyph_iff.1 root with rfl | rfl | rfl <;> decide
  rw [rootText_eq root]
  exact index.append_operator l.chained (c := rootMark) rfl fun b head =>
    follows_open_digit (l.head_text b head)

theorem markProducts_leaves (leaves : LeavesOperand u) (t : Text) :
    markProducts (t ++ u) = markProducts t ++ markProducts u := by
  apply markProducts_append
  intro a _ b head
  have other : b ≠ '(' ∧ b.isDigit = false ∧ b.isAlpha = false := by
    rcases leaves b head with rfl | operator
    · decide
    · obtain ⟨o, rfl⟩ := isOperator_iff.1 operator
      cases o <;> decide
  simp [isFactorPair, isGroupPair, isNumberFirst, isNumberLast, other]

/-- Where products are marked, a root sign with its radicand is kept behind what can be a factor. -/
theorem markProducts_rootText (root : isRootGlyph g = true) (l : Literal) (leaves : LeavesOperand u)
    (t : Text) : markProducts (t ++ (rootText g l ++ u)) =
      asFactor (markProducts t) ++ (rootText g l ++ markProducts u) := by
  have alone : markProducts (rootText g l ++ u) = rootText g l ++ markProducts u := by
    rw [markProducts_leaves leaves, (chained_rootText root l).markProducts_eq_self]
  rw [rootText_eq root] at alone ⊢
  rw [List.cons_append] at alone ⊢
  rw [markProducts_group, alone]

theorem isBreak_of_isRootGlyph (root : isRootGlyph g = true) : IsBreak g := by
  rcases isRootGlyph_iff.1 root with rfl | rfl | rfl <;> decide

/-- What has no operator of roots and no mark of an index at the end, once glyphs are replaced and
products marked, has no root sign there before. -/
theorem not_isRootGlyph_of_getLast?
    (last : ∀ c ∈ (markProducts (replaceGlyphs t)).getLast?, c ≠ rootMark ∧ c ≠ indexMark) :
    ∀ c ∈ t.getLast?, isRootGlyph c = false ∧ c ≠ indexMark := by
  intro c final
  rw [getLast?_markProducts] at last
  by_contra mark
  have mark' : isRootGlyph c = true ∨ c = indexMark := by
    by_contra none
    rw [not_or] at none
    exact mark ⟨by simpa using none.1, none.2⟩
  rcases getLast?_replaceGlyphs final mark' with operator | index
  · exact (last _ operator).1 rfl
  · exact (last _ index).2 rfl

/-- A root sign and a numeral, and a parenthesis behind them, are spelled out as they are. -/
theorem glyphText_rootGroup (root : isRootGlyph g = true) (l : Literal) (r : Text) :
    glyphText constants (g :: (l.text ++ ')' :: r)) =
      (glyphText constants r).map fun q => g :: (l.text ++ ')' :: q) := by
  have closes : LeavesOperand (')' :: r) := (leavesOperand_cons ')').2 (.inl rfl)
  have closing : glyphText constants (')' :: r) = (glyphText constants r).map fun q => ')' :: q := by
    rw [← List.nil_append (')' :: r), glyphText_cut (by decide), glyphText_nil]
    rfl
  rw [← List.nil_append (g :: _), glyphText_cut (isBreak_of_isRootGlyph root), glyphText_nil,
    l.glyphText_append closes, closing]
  cases glyphText constants r <;> rfl

theorem replaceGlyphs_rootText (root : isRootGlyph g = true) (l : Literal)
    (last : ∀ c ∈ t.getLast?, isRootGlyph c = false ∧ c ≠ indexMark) (u : Text) :
    replaceGlyphs (t ++ g :: (l.text ++ u)) = replaceGlyphs t ++ (rootText g l ++ replaceGlyphs u) := by
  have row : ∀ c ∈ l.text, isOrdinary c = true := fun c member =>
    isOrdinary_of_isArgumentChar (l.mem_text member)
  rw [replaceGlyphs_root root last l.isRow.1 row, rootText, List.append_assoc]

theorem replaceGlyphs_rootGroup (root : isRootGlyph g = true) (l : Literal) (t u : Text) :
    replaceGlyphs (t ++ '(' :: g :: (l.text ++ ')' :: u)) =
      replaceGlyphs t ++ '(' :: (rootText g l ++ ')' :: replaceGlyphs u) := by
  have inside : replaceGlyphs ([] ++ g :: (l.text ++ ')' :: u)) = _ :=
    replaceGlyphs_rootText root l (fun c none => by cases none) _
  have close : replaceGlyphs (')' :: u) = ')' :: replaceGlyphs u := replaceGlyphs_cons (by decide) u
  rw [replaceGlyphs_nil, List.nil_append, List.nil_append, close] at inside
  rw [replaceGlyphs_cut (by decide), inside]

theorem markProducts_rootGroup (root : isRootGlyph g = true) (l : Literal) (leaves : LeavesOperand u)
    (t : Text) : markProducts (t ++ '(' :: (rootText g l ++ ')' :: u)) =
      asFactor (markProducts t) ++ '(' :: (rootText g l ++ ')' :: markProducts u) := by
  have closes : LeavesOperand (')' :: u) := (leavesOperand_cons ')').2 (.inl rfl)
  have last : markProducts ([')'] ++ u) = _ := markProducts_leaves leaves [')']
  rw [markProducts_group, keepsWrapping_markProducts.opened, markProducts_leaves closes,
    (chained_rootText root l).markProducts_eq_self]
  exact congrArg (fun v => asFactor (markProducts t) ++ '(' :: (rootText g l ++ v)) last

/-- With a root sign in it that has a numeral as radicand, the canonical form of an expression is put
together from those of what stands in front of the sign and of what stands behind the numeral. In
parentheses, only these are added. -/
theorem canonical_root (root : isRootGlyph g = true) (l : Literal)
    (written : (canonical constants raw).outcome = .ok before)
    (last : ∀ c ∈ before.getLast?, c ≠ rootMark ∧ c ≠ indexMark) (leaves : LeavesOperand r) :
    (canonical constants (raw ++ g :: (l.text ++ r))).outcome =
        (canonical constants r).outcome.map (fun after =>
          asFactor before ++ (rootText g l ++ after)) ∧
      (canonical constants (raw ++ '(' :: g :: (l.text ++ ')' :: r))).outcome =
        (canonical constants r).outcome.map fun after =>
          asFactor before ++ ('(' :: (rootText g l ++ [')']) ++ after) := by
  rw [canonical_glyphText] at written
  obtain ⟨p, named, rfl⟩ := map_eq_ok written
  rw [canonical_glyphText, canonical_glyphText, canonical_glyphText,
    glyphText_cut (isBreak_of_isRootGlyph root), glyphText_cut (by decide), named,
    l.glyphText_append leaves, glyphText_rootGroup root]
  cases spelled : glyphText constants r with
  | error m => exact ⟨rfl, rfl⟩
  | ok q =>
    have leaves' : LeavesOperand (replaceGlyphs q) := (leaves.glyphText spelled).replaceGlyphs
    constructor
    · change Except.ok (markProducts (replaceGlyphs (p ++ g :: (l.text ++ q)))) = Except.ok _
      rw [replaceGlyphs_rootText root l (not_isRootGlyph_of_getLast? last),
        markProducts_rootText root l leaves']
    · change Except.ok (markProducts (replaceGlyphs (p ++ '(' :: g :: (l.text ++ ')' :: q)))) = Except.ok _
      rw [replaceGlyphs_rootGroup root, markProducts_rootGroup root l leaves']
      simp

end Reckoner
