import Reckoner.Evaluation.Calls
import Reckoner.Proofs.Expression.Check
import Reckoner.Proofs.Expression.Signs
import Mathlib.Data.List.Chain

set_option autoImplicit false

namespace Reckoner

variable {t u v : Text} {a b c d : Char} {position : Nat}

def follows (a b : Char) : Bool :=
  if isSign a then fitsAfterSign b
  else if isBinaryOnly a || a == '(' then fitsAfterBinary b
  else if a == ')' then isOperator b || b == ')' || b.isAlpha
  else if a.isDigit then b.isDigit || b == '.' || isOperator b || b == ')'
  else if a.isAlpha then isAlphanumeric b || b == '(' || isOperator b || b == ')'
  else b.isDigit

theorem insertBetween_cons (apart : Char → Char → Bool) (c : Char) (t : Text) :
    (insertBetween apart (c :: t)).head? = some c := by
  cases t with
  | nil => rfl
  | cons d t =>
    rw [insertBetween]
    split <;> rfl

/-- Where products are marked, a relation between neighbours is kept that has nothing against
the mark. -/
theorem isChain_insertBetween {related : Char → Char → Prop} {apart : Char → Char → Bool}
    (before : ∀ c, related c '*') (after : ∀ c, related '*' c)
    (h : ∀ u c d v, t = u ++ c :: d :: v → apart c d = false → related c d) :
    List.IsChain related (insertBetween apart t) := by
  induction t with
  | nil => exact .nil
  | cons c t ih =>
    cases t with
    | nil => exact .singleton c
    | cons d t =>
      have rest := ih fun u c' d' v shape => h (c :: u) c' d' v (by rw [shape]; rfl)
      rw [insertBetween]
      split
      · exact .cons_cons (before c) (List.isChain_cons.2 ⟨fun e _ => after e, rest⟩)
      next joined =>
        refine List.isChain_cons.2 ⟨fun e member => ?_, rest⟩
        rw [insertBetween_cons] at member
        cases member
        exact h [] c d t rfl (by simpa using joined)

/-- No product is left without its mark. -/
theorem isChain_markProducts (t : Text) : List.IsChain (fun c d =>
    isGroupPair c d = false ∧ isNumberFirst c d = false ∧ isNumberLast c d = false)
    (markProducts t) := by
  have star (c : Char) : isGroupPair c '*' = false ∧ isNumberFirst c '*' = false ∧
      isNumberLast c '*' = false := by
    have letter : ('*').isAlpha = false := by decide
    have digit : ('*').isDigit = false := by decide
    simp [isGroupPair, isNumberFirst, isNumberLast, letter, digit]
  have star' (c : Char) : isGroupPair '*' c = false ∧ isNumberFirst '*' c = false ∧
      isNumberLast '*' c = false := by
    have digit : ('*').isDigit = false := by decide
    simp [isGroupPair, isNumberFirst, isNumberLast, digit]
  unfold markProducts
  have first : List.IsChain (fun c d => isGroupPair c d = false) (insertBetween isGroupPair t) :=
    isChain_insertBetween (fun c => (star c).1) (fun c => (star' c).1) fun _ _ _ _ _ => id
  have second : List.IsChain (fun c d => isGroupPair c d = false ∧ isNumberFirst c d = false)
      (insertBetween isNumberFirst (insertBetween isGroupPair t)) :=
    isChain_insertBetween (fun c => ⟨(star c).1, (star c).2.1⟩)
      (fun c => ⟨(star' c).1, (star' c).2.1⟩) fun _ _ _ _ shape apart =>
      ⟨List.isChain_iff_forall_rel_of_append_cons_cons.1 first shape, apart⟩
  exact isChain_insertBetween star star' fun _ _ _ _ shape apart =>
    ⟨(List.isChain_iff_forall_rel_of_append_cons_cons.1 second shape).1,
      (List.isChain_iff_forall_rel_of_append_cons_cons.1 second shape).2, apart⟩

/-- Whether a text begins with two signs. -/
def startsWithSigns : Text → Bool
  | c :: d :: _ => isSign c && isSign d
  | _ => false

theorem startsWithSigns_cons (c : Char) (t : Text) :
    startsWithSigns (c :: t) = (isSign c && startsWith isSign t) := by
  cases t with
  | nil => simp [startsWithSigns, startsWith]
  | cons d t => rfl

theorem startsWithSigns_reduceSigns (t : Text) : startsWithSigns (reduceSigns t) = false := by
  induction t with
  | nil => rfl
  | cons c t ih =>
    rw [reduceSigns_cons]
    cases shape : reduceSigns t with
    | nil => rfl
    | cons d r =>
      rw [shape, startsWithSigns_cons] at ih
      by_cases both : (isSign c && isSign d) = true
      · have second : isSign d = true := (Bool.and_eq_true_iff.1 both).2
        rw [attachSign, if_pos both, startsWithSigns_cons]
        rw [second, Bool.true_and] at ih
        rw [ih, Bool.and_false]
      · rw [attachSign, if_neg both]
        simpa [startsWithSigns] using both

/-- A pass that puts no signs at the start of a text. -/
def AddsNoSigns (f : Text → Text) : Prop :=
  ∀ t, (startsWith isSign (f t) = true → startsWith isSign t = true) ∧
    (startsWithSigns (f t) = true → startsWithSigns t = true)

theorem AddsNoSigns.comp {f g : Text → Text} (hf : AddsNoSigns f) (hg : AddsNoSigns g) :
    AddsNoSigns fun t => f (g t) := fun t =>
  ⟨fun h => (hg t).1 ((hf (g t)).1 h), fun h => (hg t).2 ((hf (g t)).2 h)⟩

theorem startsWithSigns_of_cons {c : Char} {t u : Text}
    (rest : startsWith isSign t = true → startsWith isSign u = true)
    (h : startsWithSigns (c :: t) = true) : startsWithSigns (c :: u) = true := by
  rw [startsWithSigns_cons, Bool.and_eq_true] at h ⊢
  exact ⟨h.1, rest h.2⟩

theorem addsNoSigns_insertBetween (apart : Char → Char → Bool) :
    AddsNoSigns (insertBetween apart) := by
  have head (t : Text) : startsWith isSign (insertBetween apart t) = startsWith isSign t := by
    cases t with
    | nil => rfl
    | cons c t => rw [startsWith, insertBetween_cons, startsWith, List.head?_cons]
  intro t
  refine ⟨fun h => head t ▸ h, fun h => ?_⟩
  cases t with
  | nil => exact h
  | cons c t =>
    cases t with
    | nil => exact h
    | cons d t =>
      rw [insertBetween] at h
      split at h
      · rw [startsWithSigns_cons] at h
        have star : startsWith isSign ('*' :: insertBetween apart (d :: t)) = false := rfl
        rw [star, Bool.and_false] at h
        contradiction
      · exact startsWithSigns_of_cons (fun first => head (d :: t) ▸ first) h

theorem addsNoSigns_replaceIndexed : AddsNoSigns replaceIndexed := by
  have head (t : Text) (h : startsWith isSign (replaceIndexed t) = true) :
      startsWith isSign t = true := by
    unfold replaceIndexed at h
    split at h
    · split at h
      · contradiction
      · exact h
    · exact h
  intro t
  refine ⟨head t, fun h => ?_⟩
  unfold replaceIndexed at h
  split at h
  · split at h
    · rw [startsWithSigns_cons] at h
      exact absurd h (by simp [isSign, rootMark])
    · exact startsWithSigns_of_cons (head _) h
  · exact h

theorem addsNoSigns_replaceGlyph {glyph e : Char} {family : Char → Bool} {replacement : Text}
    (other : isSign e = false) : AddsNoSigns (replaceGlyph glyph family (e :: replacement)) := by
  have head (t : Text) (h : startsWith isSign (replaceGlyph glyph family (e :: replacement) t) =
      true) : startsWith isSign t = true := by
    cases t with
    | nil => exact h
    | cons c t =>
      unfold replaceGlyph at h
      split at h
      · have first : isSign e = true := by simpa [startsWith] using h
        rw [first] at other
        contradiction
      · exact h
  intro t
  refine ⟨head t, fun h => ?_⟩
  cases t with
  | nil => exact h
  | cons c t =>
    unfold replaceGlyph at h
    split at h
    · rw [List.cons_append, startsWithSigns_cons, other] at h
      contradiction
    · exact startsWithSigns_of_cons (head t) h

theorem addsNoSigns_replaceInverse : AddsNoSigns replaceInverse := by
  have head (t : Text) (h : startsWith isSign (replaceInverse t) = true) :
      startsWith isSign t = true := by
    unfold replaceInverse at h
    split at h
    · contradiction
    · contradiction
    · contradiction
    · exact h
    · exact h
  intro t
  refine ⟨head t, fun h => ?_⟩
  unfold replaceInverse at h
  split at h
  · exact absurd h (by simp [startsWithSigns, isSign])
  · exact absurd h (by simp [startsWithSigns, isSign])
  · exact absurd h (by simp [startsWithSigns, isSign])
  · exact startsWithSigns_of_cons (head _) h
  · exact h

theorem addsNoSigns_replaceGlyphs : AddsNoSigns replaceGlyphs := by
  have glyph {glyph e : Char} {family : Char → Bool} {replacement : Text}
      (other : isSign e = false) : AddsNoSigns (replaceGlyph glyph family (e :: replacement)) :=
    addsNoSigns_replaceGlyph other
  exact addsNoSigns_replaceInverse.comp ((glyph (by decide)).comp ((glyph (by decide)).comp
    ((glyph (by decide)).comp ((glyph (by decide)).comp ((glyph (by decide)).comp
      addsNoSigns_replaceIndexed)))))

theorem addsNoSigns_markProducts : AddsNoSigns markProducts :=
  (addsNoSigns_insertBetween _).comp
    ((addsNoSigns_insertBetween _).comp (addsNoSigns_insertBetween _))

theorem Accepted.startsWithSigns (h : Accepted t) : startsWithSigns t = false := by
  obtain ⟨constants, raw, written⟩ := h.written
  rw [canonical_outcome] at written
  obtain ⟨named, _, rfl⟩ := map_eq_ok written
  rw [Bool.eq_false_iff]
  intro signs
  have before := (addsNoSigns_replaceGlyphs _).2 ((addsNoSigns_markProducts _).2 signs)
  rw [startsWithSigns_reduceSigns] at before
  contradiction

theorem Accepted.unmarked (h : Accepted t) (shape : t = u ++ a :: b :: v) :
    isGroupPair a b = false ∧ isNumberFirst a b = false ∧ isNumberLast a b = false := by
  obtain ⟨constants, raw, written⟩ := h.written
  rw [canonical_outcome] at written
  obtain ⟨named, _, rfl⟩ := map_eq_ok written
  exact List.isChain_iff_forall_rel_of_append_cons_cons.1 (isChain_markProducts _) shape

theorem hollow?_ne_none (position : Nat) (u v : Text) :
    hollow? position (u ++ '(' :: ')' :: v) ≠ none := by
  induction u generalizing position with
  | nil => simp [hollow?]
  | cons c u ih =>
    cases u with
    | nil =>
      have rest := ih (position + 1)
      simp only [List.nil_append, List.cons_append] at rest ⊢
      unfold hollow?
      split
      · nofun
      · exact rest
    | cons d u =>
      have rest := ih (position + 1)
      simp only [List.cons_append] at rest ⊢
      unfold hollow?
      split
      · nofun
      · exact rest

/-- A pair of parentheses is not without content. -/
theorem not_hollow_of_check (h : (check (u ++ a :: b :: v)).outcome = .ok ()) :
    ¬ (a = '(' ∧ b = ')') := by
  rintro ⟨rfl, rfl⟩
  obtain ⟨parentheses, _⟩ := check_ok_iff.1 h
  unfold checkParentheses at parentheses
  split at parentheses
  · contradiction
  · obtain ⟨depth, _, rest⟩ := bind_eq_ok parentheses
    cases depth with
    | zero =>
      cases found : hollow? 0 (u ++ '(' :: ')' :: v) with
      | none => exact hollow?_ne_none 0 u v found
      | some position => simp [found] at rest
    | succ depth => contradiction

/-- A point stands between digits. -/
theorem digits_of_point (h : (check (u ++ a :: '.' :: b :: v)).outcome = .ok ()) :
    a.isDigit = true ∧ b.isDigit = true := by
  obtain ⟨position, fits⟩ := checkTriples_middle (checkPoints_ok_iff.1 (check_ok_iff.1 h).2.2.1).2.2.1
  unfold checkPoint at fits
  split at fits
  · contradiction
  next both => simpa using both

/-- The neighbours of an operator inside that needs an operand on its left. -/
theorem neighbors_of_binary (h : (check (u ++ a :: c :: b :: v)).outcome = .ok ())
    (binary : isBinaryOnly c = true) : fitsBeforeBinary a = true ∧ fitsAfterBinary b = true := by
  have unsigned : ¬ isSign c = true := by
    intro sign
    rcases isSign_iff.1 sign with rfl | rfl <;> contradiction
  obtain ⟨position, fits⟩ := checkInner_of_check h
  unfold checkInner at fits
  rw [if_neg unsigned, if_pos binary] at fits
  exact neighbors_of_checkNeighbors fits

theorem isAlphanumeric_apart (h : isAlphanumeric a = true) :
    isSign a = false ∧ isBinaryOnly a = false ∧ a ≠ '(' ∧ a ≠ ')' ∧ a ≠ '.' := by
  have apart (c : Char) (other : isAlphanumeric c = false) : a ≠ c := by
    rintro rfl
    rw [h] at other
    contradiction
  simp only [isSign, isBinaryOnly, Bool.or_eq_false_iff, beq_eq_false_iff_ne]
  exact ⟨⟨apart '+' (by decide), apart '-' (by decide)⟩,
    ⟨⟨⟨apart '*' (by decide), apart '/' (by decide)⟩, apart '^' (by decide)⟩,
      apart rootMark (by decide)⟩, apart '(' (by decide), apart ')' (by decide),
    apart '.' (by decide)⟩

theorem isAlphanumeric_of_isDigit (h : a.isDigit = true) : isAlphanumeric a = true := by
  simp [isAlphanumeric, h]

theorem isAlphanumeric_of_isAlpha (h : a.isAlpha = true) : isAlphanumeric a = true := by
  simp [isAlphanumeric, h]

theorem follows_digit (h : a.isDigit = true) :
    follows a b = (b.isDigit || b == '.' || isOperator b || b == ')') := by
  obtain ⟨unsigned, unary, open', close, _⟩ := isAlphanumeric_apart (isAlphanumeric_of_isDigit h)
  simp [follows, unsigned, unary, open', close, h]

theorem follows_letter (h : a.isAlpha = true) :
    follows a b = (isAlphanumeric b || b == '(' || isOperator b || b == ')') := by
  obtain ⟨unsigned, unary, open', close, _⟩ := isAlphanumeric_apart (isAlphanumeric_of_isAlpha h)
  have digit := not_isDigit_of_isAlpha h
  simp [follows, unsigned, unary, open', close, h, digit]

theorem follows_sign (h : isSign a = true) : follows a b = fitsAfterSign b := by
  simp [follows, h]

theorem follows_binary (h : isBinaryOnly a = true) : follows a b = fitsAfterBinary b := by
  have unsigned : isSign a = false := by
    rw [Bool.eq_false_iff]
    intro sign
    rcases isSign_iff.1 sign with rfl | rfl <;> contradiction
  simp [follows, h, unsigned]

/-- The characters of an accepted expression. -/
theorem canonicalChar_cases (h : isCanonicalChar a = true) :
    a = '.' ∨ a = '(' ∨ a = ')' ∨ a.isDigit = true ∨ a.isAlpha = true ∨ isSign a = true ∨
      isBinaryOnly a = true := by
  simpa [isCanonicalChar, isAlphanumeric, isOperator, or_assoc] using h

theorem canonicalChar_cases_of_check (h : (check t).outcome = .ok ()) (a : Char) (member : a ∈ t) :
    a = '.' ∨ a = '(' ∨ a = ')' ∨ a.isDigit = true ∨ a.isAlpha = true ∨ isSign a = true ∨
      isBinaryOnly a = true :=
  canonicalChar_cases (isCanonicalChar_of_check h a member)

/-- The first character of an accepted expression. -/
theorem follows_open_of_head (h : Accepted (a :: t)) : follows '(' a = true := by
  have checked := h.checked
  have binary := (checkOperators_ok_iff.1 (check_ok_iff.1 checked).2.1).1 a rfl
  have point := (checkPoints_ok_iff.1 (check_ok_iff.1 checked).2.2.1).1
  have closed := openAtEnd_of_check checked
  have shape : follows '(' a = (isSign a || a == '(' || isAlphanumeric a) := rfl
  rw [shape]
  rcases canonicalChar_cases_of_check checked a (.head _) with
    rfl | rfl | rfl | digit | letter | sign | operator
  · exact absurd rfl point
  · rfl
  · contradiction
  · simp [isAlphanumeric, digit]
  · simp [isAlphanumeric, letter]
  · simp [sign]
  · rw [operator] at binary
    contradiction

/-- The last character of an accepted expression. -/
theorem follows_close_of_last (h : (check (t ++ [a])).outcome = .ok ()) : follows a ')' = true := by
  have last : (t ++ [a]).getLast? = some a := by simp
  have operator := (checkOperators_ok_iff.1 (check_ok_iff.1 h).2.1).2.1 a last
  have point := (checkPoints_ok_iff.1 (check_ok_iff.1 h).2.2.1).2.1
  rcases canonicalChar_cases_of_check h a (by simp) with
    rfl | rfl | rfl | digit | letter | sign | binary
  · exact absurd last point
  · obtain ⟨middle, position, _, rest⟩ := openAtEnd_append (openAtEnd_of_check h)
    cases rest
  · rfl
  · rw [follows_digit digit]
    simp
  · rw [follows_letter letter]
    simp
  · simp [isOperator, sign] at operator
  · simp [isOperator, binary] at operator

/-- What follows a sign in an accepted expression. -/
theorem fitsAfterSign_of_accepted (h : Accepted (u ++ a :: b :: v)) (sign : isSign a = true) :
    fitsAfterSign b = true := by
  have checked := h.checked
  rcases List.eq_nil_or_concat u with rfl | ⟨u, p, rfl⟩
  · -- At the start no triple has the sign in its middle.
    rw [List.nil_append] at h checked
    have single := h.startsWithSigns
    rw [startsWithSigns, sign, Bool.true_and] at single
    rcases canonicalChar_cases_of_check checked b (.tail _ (.head _)) with
      rfl | rfl | rfl | digit | letter | sign' | binary
    · cases v with
      | nil => exact absurd rfl (checkPoints_ok_iff.1 (check_ok_iff.1 checked).2.2.1).2.1
      | cons c v =>
        have digit := (digits_of_point (u := []) checked).1
        have alphanumeric := isAlphanumeric_apart (isAlphanumeric_of_isDigit digit)
        rw [alphanumeric.1] at sign
        contradiction
    · rfl
    · have closed := openAtEnd_of_check checked
      have other : a ≠ '(' ∧ a ≠ ')' := by
        constructor <;> rintro rfl <;> contradiction
      rw [openAtEnd_other other.1 other.2] at closed
      contradiction
    · simp [fitsAfterSign, isAlphanumeric, digit]
    · simp [fitsAfterSign, isAlphanumeric, letter]
    · rw [sign'] at single
      contradiction
    · cases v with
      | nil =>
        have last := (checkOperators_ok_iff.1 (check_ok_iff.1 checked).2.1).2.1 b (by simp)
        simp [isOperator, binary] at last
      | cons c v =>
        have before := (neighbors_of_binary (u := []) checked binary).1
        rcases isSign_iff.1 sign with rfl | rfl <;> contradiction
  · rw [List.concat_eq_append, List.append_assoc, List.singleton_append] at checked
    exact (neighbors_of_sign checked sign).2

/-- What stands before a character that no sign and no operand can begin with is an operand's
end. -/
theorem endsOperand_of_next (h : (check (u ++ a :: b :: v)).outcome = .ok ())
    (next : b = '.' ∨ isBinaryOnly b = true) :
    (b = '.' → a.isDigit = true) ∧ (isBinaryOnly b = true → fitsBeforeBinary a = true) := by
  cases v with
  | nil =>
    have last : (u ++ [a, b]).getLast? = some b := by simp
    rcases next with rfl | binary
    · exact absurd last (checkPoints_ok_iff.1 (check_ok_iff.1 h).2.2.1).2.1
    · have operator := (checkOperators_ok_iff.1 (check_ok_iff.1 h).2.1).2.1 b last
      simp [isOperator, binary] at operator
  | cons c v =>
    refine ⟨?_, fun binary => (neighbors_of_binary h binary).1⟩
    rintro rfl
    exact (digits_of_point h).1

theorem isDigit_of_behind_point (h : Accepted (u ++ '.' :: b :: v)) : b.isDigit = true := by
  have checked := h.checked
  rcases List.eq_nil_or_concat u with rfl | ⟨u, p, rfl⟩
  · exact absurd rfl (checkPoints_ok_iff.1 (check_ok_iff.1 checked).2.2.1).1
  · rw [List.concat_eq_append, List.append_assoc, List.singleton_append] at checked
    exact (digits_of_point checked).2

theorem follows_open_of_accepted (h : Accepted (u ++ '(' :: b :: v)) : follows '(' b = true := by
  have before := endsOperand_of_next h.checked
  have shape : follows '(' b = (isSign b || b == '(' || isAlphanumeric b) := rfl
  rw [shape]
  rcases canonicalChar_cases_of_check h.checked b (by simp) with
    rfl | rfl | rfl | digit | letter | sign | binary
  · exact absurd ((before (.inl rfl)).1 rfl) (by decide)
  · rfl
  · exact absurd ⟨rfl, rfl⟩ (not_hollow_of_check h.checked)
  · simp [isAlphanumeric, digit]
  · simp [isAlphanumeric, letter]
  · simp [sign]
  · exact absurd ((before (.inr binary)).2 binary) (by decide)

/-- Behind a group no product is left out. -/
theorem follows_close_of_accepted (h : Accepted (u ++ ')' :: b :: v)) : follows ')' b = true := by
  have apart := h.unmarked rfl
  have before := endsOperand_of_next h.checked
  have shape : follows ')' b = (isOperator b || b == ')' || b.isAlpha) := rfl
  rw [shape]
  rcases canonicalChar_cases_of_check h.checked b (by simp) with
    rfl | rfl | rfl | digit | letter | sign | binary
  · exact absurd ((before (.inl rfl)).1 rfl) (by decide)
  · exact absurd apart.1 (by decide)
  · rfl
  · exact absurd apart.2.2 (by simp [isNumberLast, digit])
  · simp [letter]
  · simp [isOperator, sign]
  · simp [isOperator, binary]

/-- Behind a digit no product is left out. -/
theorem follows_digit_of_accepted (h : Accepted (u ++ a :: b :: v)) (digit : a.isDigit = true) :
    follows a b = true := by
  have apart := h.unmarked rfl
  rw [follows_digit digit]
  rcases canonicalChar_cases_of_check h.checked b (by simp) with
    rfl | rfl | rfl | digit' | letter | sign | binary
  · rfl
  · exact absurd apart.2.1 (by simp [isNumberFirst, digit])
  · rfl
  · simp [digit']
  · exact absurd apart.2.1 (by simp [isNumberFirst, digit, letter])
  · simp [isOperator, sign]
  · simp [isOperator, binary]

theorem follows_letter_of_accepted (h : Accepted (u ++ a :: b :: v)) (letter : a.isAlpha = true) :
    follows a b = true := by
  rw [follows_letter letter]
  rcases canonicalChar_cases_of_check h.checked b (by simp) with
    rfl | rfl | rfl | digit | letter' | sign | binary
  · have digit := (endsOperand_of_next h.checked (.inl rfl)).1 rfl
    rw [not_isDigit_of_isAlpha letter] at digit
    contradiction
  · rfl
  · rfl
  · simp [isAlphanumeric, digit]
  · simp [isAlphanumeric, letter']
  · simp [isOperator, sign]
  · simp [isOperator, binary]

theorem fitsAfterBinary_of_accepted (h : Accepted (u ++ a :: b :: v)) (binary : isBinaryOnly a = true) :
    fitsAfterBinary b = true := by
  have checked := h.checked
  rcases List.eq_nil_or_concat u with rfl | ⟨u, p, rfl⟩
  · have head := (checkOperators_ok_iff.1 (check_ok_iff.1 checked).2.1).1 a rfl
    rw [binary] at head
    contradiction
  · rw [List.concat_eq_append, List.append_assoc, List.singleton_append] at checked
    exact (neighbors_of_binary checked binary).2

theorem Accepted.follows (h : Accepted t) (shape : t = u ++ a :: b :: v) :
    Reckoner.follows a b = true := by
  subst shape
  rcases canonicalChar_cases_of_check h.checked a (by simp) with
    rfl | rfl | rfl | digit | letter | sign | binary
  · exact isDigit_of_behind_point h
  · exact follows_open_of_accepted h
  · exact follows_close_of_accepted h
  · exact follows_digit_of_accepted h digit
  · exact follows_letter_of_accepted h letter
  · rw [follows_sign sign]
    exact fitsAfterSign_of_accepted h sign
  · rw [follows_binary binary]
    exact fitsAfterBinary_of_accepted h binary

/-- Between parentheses every character of an accepted expression can follow the one before it. -/
theorem Accepted.isChain (h : Accepted t) :
    List.IsChain (fun a b => Reckoner.follows a b = true) ('(' :: (t ++ [')'])) := by
  have nonempty : t ≠ [] := by
    rintro rfl
    have parentheses := (check_ok_iff.1 h.checked).1
    contradiction
  have inside : List.IsChain (fun a b => Reckoner.follows a b = true) t :=
    List.isChain_iff_forall_rel_of_append_cons_cons.2 fun _ _ _ _ shape => h.follows shape
  rw [List.isChain_cons, List.isChain_append]
  refine ⟨fun a head => ?_, inside, .singleton _, fun a last b only => ?_⟩
  · cases t with
    | nil => exact absurd rfl nonempty
    | cons c t =>
      cases head
      exact follows_open_of_head h
  · cases only
    obtain ⟨u, rfl⟩ : ∃ u, t = u ++ [a] := by
      rcases List.eq_nil_or_concat t with rfl | ⟨u, c, rfl⟩
      · exact absurd rfl nonempty
      · refine ⟨u, ?_⟩
        simpa using last
    exact follows_close_of_last h.checked

/-- Between two points there is an operator. -/
def PointsApart (t : Text) : Prop :=
  ∀ u v w, t = u ++ '.' :: (v ++ '.' :: w) → ∃ c ∈ v, isOperator c = true

theorem exists_operator_of_checkSinglePoint {w : Text}
    (h : checkSinglePoint true position (v ++ '.' :: w) = .ok ()) :
    ∃ c ∈ v, isOperator c = true := by
  induction v generalizing position with
  | nil => simp [checkSinglePoint] at h
  | cons d v ih =>
    by_cases operator : isOperator d = true
    · exact ⟨d, .head _, operator⟩
    · have other : isOperator d = false := by simpa using operator
      simp only [List.cons_append, checkSinglePoint, Bool.true_and, other, Bool.not_false,
        if_true] at h
      split at h
      · contradiction
      · obtain ⟨c, member, found⟩ := ih h
        exact ⟨c, .tail _ member, found⟩

theorem pointsApart_of_checkSinglePoint {seen : Bool}
    (h : checkSinglePoint seen position t = .ok ()) : PointsApart t := by
  rintro u v w rfl
  induction u generalizing seen position with
  | nil =>
    cases seen with
    | true => simp [checkSinglePoint] at h
    | false => exact exists_operator_of_checkSinglePoint (by simpa [checkSinglePoint] using h)
  | cons c u ih =>
    rw [List.cons_append, checkSinglePoint] at h
    split at h
    · contradiction
    · exact ih h

theorem pointsApart_of_check (h : (check t).outcome = .ok ()) : PointsApart t :=
  pointsApart_of_checkSinglePoint (checkPoints_ok_iff.1 (check_ok_iff.1 h).2.2.1).2.2.2

end Reckoner
