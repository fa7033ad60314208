import Reckoner.Proofs.Evaluation.Value
import Reckoner.Proofs.Expression.Neighbors

set_option autoImplicit false

namespace Reckoner

variable {t u : Text} {a b c : Char} {position : Nat}

/-- Between parentheses every character can follow the one before it. -/
def Chained (t : Text) : Prop :=
  List.IsChain (fun a b => follows a b = true) ('(' :: (t ++ [')']))

theorem isCanonicalChar_of_follows (h : isCanonicalChar a = true) (next : follows a b = true) :
    isCanonicalChar b = true := by
  have after : fitsAfterBinary b = true → isCanonicalChar b = true := by
    simp only [fitsAfterBinary, isCanonicalChar, isOperator, Bool.or_eq_true]
    tauto
  rcases canonicalChar_cases h with rfl | rfl | rfl | digit | letter | sign | binary
  · have digit : b.isDigit = true := next
    simp [isCanonicalChar, isAlphanumeric, digit]
  · exact after next
  · have shape : follows ')' b = (isOperator b || b == ')' || b.isAlpha) := rfl
    rw [shape] at next
    simp only [Bool.or_eq_true] at next
    simp only [isCanonicalChar, isAlphanumeric, Bool.or_eq_true]
    tauto
  · rw [follows_digit digit] at next
    simp only [Bool.or_eq_true] at next
    simp only [isCanonicalChar, isAlphanumeric, Bool.or_eq_true]
    tauto
  · rw [follows_letter letter] at next
    simp only [isCanonicalChar, Bool.or_eq_true] at next ⊢
    tauto
  · rw [follows_sign sign] at next
    refine after ?_
    simp only [fitsAfterSign, fitsAfterBinary, Bool.or_eq_true] at next ⊢
    tauto
  · rw [follows_binary binary] at next
    exact after next

namespace Chained

variable (h : Chained t)

include h

theorem follows {v : Text} (shape : t = u ++ a :: b :: v) : Reckoner.follows a b = true := by
  subst shape
  have whole : '(' :: (u ++ a :: b :: v ++ [')']) = '(' :: u ++ a :: b :: (v ++ [')']) := by simp
  exact List.isChain_iff_forall_rel_of_append_cons_cons.1 h whole

theorem head (first : a ∈ t.head?) : Reckoner.follows '(' a = true := by
  refine (List.isChain_cons.1 h).1 a ?_
  cases t with
  | nil => contradiction
  | cons c t => exact first

theorem last (last : a ∈ t.getLast?) : Reckoner.follows a ')' = true :=
  (List.isChain_append.1 (List.isChain_cons.1 h).2).2.2 a last ')' rfl

theorem ne_nil : t ≠ [] := by
  rintro rfl
  have apart : Reckoner.follows '(' ')' = true := (List.isChain_cons.1 h).1 ')' rfl
  contradiction

theorem inside : List.IsChain (fun a b => Reckoner.follows a b = true) t :=
  (List.isChain_append.1 (List.isChain_cons.1 h).2).1

theorem isCanonicalChar : ∀ c ∈ t, isCanonicalChar c = true := by
  have run {a : Char} {t : Text} (h : List.IsChain (fun a b => Reckoner.follows a b = true) (a :: t))
      (first : Reckoner.isCanonicalChar a = true) : ∀ c ∈ t, Reckoner.isCanonicalChar c = true := by
    induction t generalizing a with
    | nil => exact nofun
    | cons b t ih =>
      have next := isCanonicalChar_of_follows first (List.isChain_cons_cons.1 h).1
      exact List.forall_mem_cons.2 ⟨next, ih (List.isChain_cons_cons.1 h).2 next⟩
  intro c member
  exact run h (by decide) c (List.mem_append_left _ member)

/-- A relation between neighbours that goes with every pair of characters that can follow each
other. -/
theorem isChain {related : Char → Char → Prop}
    (every : ∀ a b, Reckoner.isCanonicalChar a = true → Reckoner.follows a b = true → related a b) :
    List.IsChain related t :=
  List.isChain_iff_forall_rel_of_append_cons_cons.2 fun _ _ _ _ shape =>
    every _ _ (h.isCanonicalChar _ (shape ▸ by simp)) (h.follows shape)

end Chained

theorem replaceConstants_nil (t : Text) : replaceConstants [] t = .ok t := by
  fun_induction replaceConstants [] t with
  | case1 => rfl
  | case2 c r name ih =>
    have same : constantText [] (c :: r.takeWhile isConstantChar) =
        .ok (c :: r.takeWhile isConstantChar) := rfl
    rw [same, ih]
    exact congrArg (fun t => Except.ok (c :: t)) List.takeWhile_append_dropWhile
  | case3 c r other ih =>
    rw [ih]
    rfl

/-- Behind the digits at the start of such a text there is no exponent's mark. -/
theorem afterDigits_ne_mark
    (apart : List.IsChain (fun a b => ¬ (isDecimalDigit a = true ∧ b = 'E')) t)
    (nonempty : Numeral.digits t ≠ []) (r : Text) : Numeral.afterDigits t ≠ 'E' :: r := by
  intro shape
  rcases List.eq_nil_or_concat (Numeral.digits t) with none | ⟨u, a, taken⟩
  · exact nonempty none
  · have whole : Numeral.digits t ++ Numeral.afterDigits t = t := List.takeWhile_append_dropWhile
    have member : a ∈ Numeral.digits t := by
      rw [taken]
      simp
    have digit : isDecimalDigit a = true := List.all_eq_true.1 List.all_takeWhile a member
    rw [taken, shape, List.concat_eq_append, List.append_assoc, List.singleton_append] at whole
    exact List.isChain_iff_forall_rel_of_append_cons_cons.1 apart whole.symm ⟨digit, rfl⟩

theorem splitPlaces_of_no_point (other : c ≠ '.') (t : Text) :
    Numeral.splitPlaces (c :: t) = ([], c :: t) := by
  unfold Numeral.splitPlaces
  split
  next same =>
    cases same
    contradiction
  next => rfl

/-- A mark behind the places stands behind digits. -/
theorem afterDigits_of_splitPlaces {r : Text} (mark : (Numeral.splitPlaces ('.' :: t)).2 = 'E' :: r) :
    Numeral.digits t ≠ [] ∧ Numeral.afterDigits t = 'E' :: r := by
  unfold Numeral.splitPlaces at mark
  simp only at mark
  split at mark
  · cases mark
  next places =>
    have nonempty : Numeral.digits t ≠ [] := by
      rw [← List.isEmpty_eq_false_iff]
      simpa using places
    exact ⟨nonempty, mark⟩

/-- A numeral with an exponent has a digit before the exponent's mark. -/
theorem scientific?_eq_none
    (apart : List.IsChain (fun a b => ¬ (isDecimalDigit a = true ∧ b = 'E')) t) :
    Numeral.scientific? t = none := by
  have noMark (r : Text) (nonempty : Numeral.digits t ≠ []) :
      (Numeral.splitPlaces (Numeral.afterDigits t)).2 ≠ 'E' :: r := by
    intro mark
    cases after : Numeral.afterDigits t with
    | nil =>
      rw [after] at mark
      contradiction
    | cons c v =>
      rw [after] at mark
      by_cases point : c = '.'
      · subst point
        obtain ⟨nonempty', shape⟩ := afterDigits_of_splitPlaces mark
        have suffix : v <:+ t := (List.suffix_cons '.' v).trans (after ▸ List.dropWhile_suffix _)
        obtain ⟨u, rfl⟩ := suffix
        exact afterDigits_ne_mark apart.right_of_append nonempty' r shape
      · rw [splitPlaces_of_no_point point] at mark
        exact afterDigits_ne_mark apart nonempty r (after.trans mark)
  unfold Numeral.scientific?
  simp only
  split
  · rfl
  next whole =>
    have nonempty : Numeral.digits t ≠ [] := by
      rw [← List.isEmpty_eq_false_iff]
      simpa using whole
    split
    next r shape => exact absurd shape (noMark r nonempty)
    next => rfl

/-- A text whose digits are followed by no exponent's mark stays as it is. -/
theorem expandScientific_eq_self
    (apart : List.IsChain (fun a b => ¬ (isDecimalDigit a = true ∧ b = 'E')) t) :
    expandScientific t = t := by
  fun_induction expandScientific t with
  | case1 => rfl
  | case2 c r d rest found =>
    rw [scientific?_eq_none apart] at found
    contradiction
  | case3 c r missed ih =>
    obtain ⟨u, whole⟩ := List.dropWhile_suffix (continuesDigits c) (l := r)
    have tail := apart.tail
    rw [List.tail_cons, ← whole] at tail
    rw [ih tail.right_of_append, List.takeWhile_append_dropWhile]

theorem replaceIndexed_eq_self (none : ∀ c ∈ t, c ≠ indexMark) : replaceIndexed t = t := by
  fun_induction replaceIndexed t with
  | case1 c d r indexed =>
    simp only [Bool.and_eq_true, beq_iff_eq] at indexed
    exact absurd indexed.1.1 (none c (.head _))
  | case2 c d r other ih => rw [ih fun c hc => none c (.tail _ hc)]
  | case3 => rfl

theorem replaceGlyph_eq_self {glyph : Char} {family : Char → Bool} {replacement : Text}
    (none : ∀ c ∈ t, c ≠ glyph) : replaceGlyph glyph family replacement t = t := by
  induction t with
  | nil => rfl
  | cons c t ih =>
    have other : (c == glyph) = false := by simpa using none c (.head _)
    rw [replaceGlyph, other, Bool.false_and, if_neg Bool.false_ne_true,
      ih fun c hc => none c (.tail _ hc)]

theorem replaceInverse_eq_self (none : ∀ c ∈ t, c ≠ openMark) : replaceInverse t = t := by
  fun_induction replaceInverse t with
  | case1 r ih | case2 r ih | case3 r ih => exact absurd rfl (none '{' (by simp))
  | case4 c r _ _ _ ih => rw [ih fun c hc => none c (.tail _ hc)]
  | case5 => rfl

theorem insertBetween_eq_self {apart : Char → Char → Bool}
    (joined : List.IsChain (fun a b => apart a b = false) t) : insertBetween apart t = t := by
  fun_induction insertBetween apart t with
  | case1 c d r between =>
    rw [(List.isChain_cons_cons.1 joined).1] at between
    contradiction
  | case2 c d r together ih => rw [ih (List.isChain_cons_cons.1 joined).2]
  | case3 => rfl

theorem reduced_of_isChain
    (single : List.IsChain (fun a b => ¬ (isSign a = true ∧ isSign b = true)) t) : Reduced t := by
  induction t with
  | nil => exact reduced_nil
  | cons c t ih =>
    have rest := ih single.tail
    by_cases sign : isSign c = true
    · refine rest.cons_unsigned ?_ c
      cases t with
      | nil => rfl
      | cons d t =>
        have apart := (List.isChain_cons_cons.1 single).1
        simpa [startsWith, sign] using apart
    · exact rest.cons_not_sign (by simpa using sign)

theorem not_exponent_of_follows (h : isCanonicalChar a = true) (next : follows a b = true) :
    ¬ (isDecimalDigit a = true ∧ b = 'E') := by
  rintro ⟨decimal, rfl⟩
  rcases canonicalChar_cases h with rfl | rfl | rfl | digit | letter | sign | binary
  · contradiction
  · exact absurd decimal (by decide)
  · exact absurd decimal (by decide)
  · rw [follows_digit digit] at next
    contradiction
  · rw [isDecimalDigit_of_isAlpha letter] at decimal
    contradiction
  · rcases isSign_iff.1 sign with rfl | rfl <;> exact absurd decimal (by decide)
  · simp only [isBinaryOnly, Bool.or_eq_true, beq_iff_eq] at binary
    rcases binary with ((rfl | rfl) | rfl) | rfl <;> exact absurd decimal (by decide)

theorem not_signs_of_follows (next : follows a b = true) :
    ¬ (isSign a = true ∧ isSign b = true) := by
  rintro ⟨first, second⟩
  rw [follows_sign first] at next
  rcases isSign_iff.1 second with rfl | rfl <;> contradiction

theorem unmarked_of_follows (next : follows a b = true) :
    isGroupPair a b = false ∧ isNumberFirst a b = false ∧ isNumberLast a b = false := by
  refine ⟨?_, ?_, ?_⟩ <;> rw [Bool.eq_false_iff] <;> intro pair
  · simp only [isGroupPair, Bool.and_eq_true, beq_iff_eq] at pair
    obtain ⟨rfl, rfl⟩ := pair
    contradiction
  · simp only [isNumberFirst, Bool.and_eq_true, Bool.or_eq_true, beq_iff_eq] at pair
    obtain ⟨digit, rfl | letter⟩ := pair
    · rw [follows_digit digit] at next
      contradiction
    · obtain ⟨sign, binary, _, close, point⟩ :=
        isAlphanumeric_apart (isAlphanumeric_of_isAlpha letter)
      rw [follows_digit digit, not_isDigit_of_isAlpha letter] at next
      simp [isOperator, sign, binary, close, point] at next
  · simp only [isNumberLast, Bool.and_eq_true, beq_iff_eq] at pair
    obtain ⟨rfl, digit⟩ := pair
    obtain ⟨sign, binary, _, close, _⟩ := isAlphanumeric_apart (isAlphanumeric_of_isDigit digit)
    have shape : follows ')' b = (isOperator b || b == ')' || b.isAlpha) := rfl
    have letter : b.isAlpha = false := by
      rw [Bool.eq_false_iff]
      intro letter
      rw [not_isDigit_of_isAlpha letter] at digit
      contradiction
    rw [shape] at next
    simp [isOperator, sign, binary, close, letter] at next

def finish (t : Text) : Text := markProducts (replaceGlyphs (reduceSigns t))

theorem Chained.ne_of_stray (h : Chained t) (other : Reckoner.isCanonicalChar a = false) :
    ∀ c ∈ t, c ≠ a := by
  rintro c member rfl
  rw [h.isCanonicalChar c member] at other
  contradiction

theorem Chained.markProducts_eq_self (h : Chained t) : markProducts t = t := by
  unfold markProducts
  rw [insertBetween_eq_self (h.isChain fun _ _ _ next => (unmarked_of_follows next).1),
    insertBetween_eq_self (h.isChain fun _ _ _ next => (unmarked_of_follows next).2.1),
    insertBetween_eq_self (h.isChain fun _ _ _ next => (unmarked_of_follows next).2.2)]

theorem Chained.finish_eq_self (h : Chained t) : finish t = t := by
  have signs : reduceSigns t = t :=
    reduced_of_isChain (h.isChain fun _ _ _ => not_signs_of_follows)
  have glyph {glyph : Char} {family : Char → Bool} {replacement : Text}
      (other : Reckoner.isCanonicalChar glyph = false) :
      replaceGlyph glyph family replacement t = t := replaceGlyph_eq_self (h.ne_of_stray other)
  have glyphs : replaceGlyphs t = t := by
    unfold replaceGlyphs
    simp only [replaceIndexed_eq_self (h.ne_of_stray (a := indexMark) (by decide))]
    repeat rw [glyph (by decide)]
    exact replaceInverse_eq_self (h.ne_of_stray (by decide))
  unfold finish
  rw [signs, glyphs, h.markProducts_eq_self]

/-- A text of this kind passes all steps behind the first one as it is. -/
theorem Chained.canonicalOfNamed_eq_self (h : Chained t) : canonicalOfNamed t = t := by
  have spaces : removeSpaces t = t :=
    List.filter_eq_self.2 fun c member => by simpa using h.ne_of_stray (a := ' ') (by decide) c member
  have numerals : expandScientific t = t :=
    expandScientific_eq_self (h.isChain fun _ _ => not_exponent_of_follows)
  unfold canonicalOfNamed
  rw [spaces, numerals]
  exact h.finish_eq_self

theorem Chained.canonical (h : Chained t) : (canonical [] t).outcome = .ok t := by
  rw [canonical_outcome, replaceConstants_nil]
  exact congrArg Except.ok h.canonicalOfNamed_eq_self

theorem hollow?_eq_none (apart : List.IsChain (fun a b => ¬ (a = '(' ∧ b = ')')) t) :
    hollow? position t = none := by
  induction t generalizing position with
  | nil => rfl
  | cons c t ih =>
    cases t with
    | nil => rfl
    | cons d t =>
      obtain ⟨pair, rest⟩ := List.isChain_cons_cons.1 apart
      rw [hollow?, if_neg (by simpa using pair)]
      exact ih rest

theorem checkTriples_eq_ok {check : Char → Char → Char → Nat → Except Fault Unit}
    (every : ∀ u a c b v position, t = u ++ a :: c :: b :: v → check a c b position = .ok ()) :
    checkTriples check position t = .ok () := by
  induction t generalizing position with
  | nil => rfl
  | cons a t ih =>
    rcases t with _ | ⟨c, _ | ⟨b, t⟩⟩
    · rfl
    · rfl
    · have rest : checkTriples check (position + 1) (c :: b :: t) = .ok () :=
        ih fun u a' c' b' v p shape => every (a :: u) a' c' b' v p (by rw [shape]; rfl)
      rw [checkTriples, every [] a c b t position rfl]
      exact rest

theorem checkSinglePoint_eq_ok {seen : Bool} (apart : PointsApart t)
    (before : seen = true → ∀ u v, t = u ++ '.' :: v → ∃ c ∈ u, isOperator c = true) :
    checkSinglePoint seen position t = .ok () := by
  induction t generalizing seen position with
  | nil => rfl
  | cons c t ih =>
    have first : ¬ (seen && c == '.') = true := by
      intro both
      simp only [Bool.and_eq_true, beq_iff_eq] at both
      obtain ⟨seen, rfl⟩ := both
      obtain ⟨d, member, _⟩ := before seen [] t rfl
      contradiction
    rw [checkSinglePoint, if_neg first]
    refine ih (fun u v w shape => apart (c :: u) v w (by rw [shape]; rfl)) fun next u v shape => ?_
    cases seen with
    | true =>
      obtain ⟨d, member, operator⟩ := before rfl (c :: u) v (by rw [shape]; rfl)
      rcases List.mem_cons.1 member with rfl | later
      · rw [if_pos rfl, operator] at next
        contradiction
      · exact ⟨d, later, operator⟩
    | false =>
      have point : c = '.' := by simpa using next
      exact apart [] u v (by rw [shape, point]; rfl)

theorem checkCharacters_eq_ok (every : ∀ c ∈ t, isCanonicalChar c = true) :
    checkCharacters position t = .ok () := by
  induction t generalizing position with
  | nil => rfl
  | cons c t ih =>
    rw [checkCharacters, if_pos (every c (.head _))]
    exact ih fun d member => every d (.tail _ member)

theorem checkNeighbors_eq_ok {before after : Char → Bool} (first : before a = true)
    (second : after b = true) : checkNeighbors before after a c b position = .ok () := by
  unfold checkNeighbors
  rw [first, second]
  rfl

theorem other_of_fitsAfterBinary (h : fitsAfterBinary b = true) :
    isBinaryOnly b = false ∧ b ≠ '.' := by
  have alphanumeric (h : isAlphanumeric b = true) : isBinaryOnly b = false ∧ b ≠ '.' :=
    ⟨(isAlphanumeric_apart h).2.1, (isAlphanumeric_apart h).2.2.2.2⟩
  simp only [fitsAfterBinary, Bool.or_eq_true, beq_iff_eq] at h
  rcases h with (sign | rfl) | other
  · rcases isSign_iff.1 sign with rfl | rfl <;> decide
  · decide
  · exact alphanumeric other

/-- What a character can follow that no operand begins with. -/
theorem fitsBefore_of_follows (h : isCanonicalChar a = true) (next : follows a b = true) :
    (isSign b = true → fitsBeforeSign a = true) ∧
      (isBinaryOnly b = true → fitsBeforeBinary a = true) ∧ (b = '.' → a.isDigit = true) := by
  have unary (fits : fitsAfterBinary b = true) :
      (isBinaryOnly b = true → fitsBeforeBinary a = true) ∧ (b = '.' → a.isDigit = true) := by
    obtain ⟨binary, point⟩ := other_of_fitsAfterBinary fits
    exact ⟨fun h => by rw [h] at binary; contradiction, fun h => absurd h point⟩
  rcases canonicalChar_cases h with rfl | rfl | rfl | digit | letter | sign | binary
  · have digit : b.isDigit = true := next
    obtain ⟨sign, binary, _, _, point⟩ := isAlphanumeric_apart (isAlphanumeric_of_isDigit digit)
    rw [sign, binary]
    exact ⟨nofun, nofun, fun h => absurd h point⟩
  · exact ⟨fun _ => rfl, unary next⟩
  · refine ⟨fun _ => rfl, fun _ => rfl, ?_⟩
    rintro rfl
    contradiction
  · have operand := isAlphanumeric_of_isDigit digit
    exact ⟨fun _ => by simp [fitsBeforeSign, operand], fun _ => by simp [fitsBeforeBinary, operand],
      fun _ => digit⟩
  · have operand := isAlphanumeric_of_isAlpha letter
    refine ⟨fun _ => by simp [fitsBeforeSign, operand], fun _ => by simp [fitsBeforeBinary, operand],
      ?_⟩
    rintro rfl
    rw [follows_letter letter] at next
    contradiction
  · rw [follows_sign sign] at next
    refine ⟨fun _ => by simp [fitsBeforeSign, isOperator, sign], unary ?_⟩
    simp only [fitsAfterSign, fitsAfterBinary, Bool.or_eq_true] at next ⊢
    tauto
  · rw [follows_binary binary] at next
    exact ⟨fun _ => by simp [fitsBeforeSign, isOperator, binary], unary next⟩

/-- A character that can stand between its neighbours passes both scans that look at them. -/
theorem checkInner_of_follows (h : isCanonicalChar a = true) (before : follows a c = true)
    (after : follows c b = true) :
    checkInner a c b position = .ok () ∧ checkPoint a c b position = .ok () := by
  obtain ⟨sign, binary, point⟩ := fitsBefore_of_follows h before
  unfold checkInner checkPoint
  constructor
  · split
    next isSign => exact checkNeighbors_eq_ok (sign isSign) (follows_sign isSign ▸ after)
    next =>
      split
      next isBinary => exact checkNeighbors_eq_ok (binary isBinary) (follows_binary isBinary ▸ after)
      next => rfl
  · by_cases isPoint : c = '.'
    · subst isPoint
      have digit : b.isDigit = true := after
      rw [point rfl, digit]
      rfl
    · have other : (c == '.') = false := by simpa using isPoint
      rw [other]
      rfl

theorem Chained.check (h : Chained t) (closed : openAtEnd 0 0 t = .ok 0) (points : PointsApart t) :
    (check t).outcome = .ok () := by
  have head (c : Char) (first : c ∈ t.head?) : isBinaryOnly c = false ∧ c ≠ '.' :=
    other_of_fitsAfterBinary (h.head first)
  have last (c : Char) (final : c ∈ t.getLast?) : isOperator c = false ∧ c ≠ '.' := by
    have next := h.last final
    have sign : isSign c = false := by
      rw [Bool.eq_false_iff]
      intro sign
      rw [follows_sign sign] at next
      contradiction
    have binary : isBinaryOnly c = false := by
      rw [Bool.eq_false_iff]
      intro binary
      rw [follows_binary binary] at next
      contradiction
    refine ⟨by simp [isOperator, sign, binary], ?_⟩
    rintro rfl
    contradiction
  have inner {u v : Text} {a c b : Char} (position : Nat) (shape : t = u ++ a :: c :: b :: v) :
      checkInner a c b position = .ok () ∧ checkPoint a c b position = .ok () := by
    have shape' : t = u ++ [a] ++ c :: b :: v := by rw [shape, List.append_assoc]; rfl
    exact checkInner_of_follows (h.isCanonicalChar a (shape ▸ by simp)) (h.follows shape)
      (h.follows shape')
  rw [check_ok_iff, checkOperators_ok_iff, checkPoints_ok_iff]
  refine ⟨?_, ⟨fun c first => (head c first).1, fun c final => (last c final).1, ?_⟩,
    ⟨fun first => (head _ first).2 rfl, fun final => (last _ final).2 rfl, ?_, ?_⟩,
    checkCharacters_eq_ok h.isCanonicalChar⟩
  · have full : hollow? 0 t = none := hollow?_eq_none (h.isChain fun a b _ next => by
      rintro ⟨rfl, rfl⟩
      contradiction)
    have nonempty : ¬ t.isEmpty = true := by simpa using h.ne_nil
    unfold checkParentheses
    rw [if_neg nonempty, closed, full]
    rfl
  · exact checkTriples_eq_ok fun u a c b v position shape => (inner position shape).1
  · exact checkTriples_eq_ok fun u a c b v position shape => (inner position shape).2
  · exact checkSinglePoint_eq_ok points fun none => absurd none (by simp)

/-- The accepted expressions: parentheses with partners, neighbours that can follow each other, and
an operator between any two points. -/
theorem accepted_iff : Accepted t ↔ openAtEnd 0 0 t = .ok 0 ∧ Chained t ∧ PointsApart t :=
  ⟨fun h => ⟨openAtEnd_of_check h.checked, h.isChain, pointsApart_of_check h.checked⟩,
    fun ⟨closed, chained, points⟩ =>
      ⟨⟨[], t, chained.canonical⟩, chained.check closed points⟩⟩

/-- Behind the end of an operand there can be any operator. -/
theorem follows_of_close (h : isCanonicalChar a = true) (last : follows a ')' = true)
    (operator : isOperator c = true) : follows a c = true := by
  rcases canonicalChar_cases h with rfl | rfl | rfl | digit | letter | sign | binary
  · contradiction
  · contradiction
  · have shape : follows ')' c = (isOperator c || c == ')' || c.isAlpha) := rfl
    simp [shape, operator]
  · simp [follows_digit digit, operator]
  · simp [follows_letter letter, operator]
  · rw [follows_sign sign] at last
    contradiction
  · rw [follows_binary binary] at last
    contradiction

theorem Chained.append (h : Chained t) (h' : Chained u)
    (joint : ∀ a ∈ t.getLast?, ∀ b ∈ u.head?, Reckoner.follows a b = true) : Chained (t ++ u) := by
  unfold Chained
  rw [List.append_assoc]
  refine List.isChain_cons.2 ⟨fun b first => h.head ?_, List.isChain_append.2
    ⟨h.inside, (List.isChain_cons.1 h').2, fun a last b first => joint a last b ?_⟩⟩
  · cases t with
    | nil => exact absurd rfl h.ne_nil
    | cons d t => exact first
  · cases u with
    | nil => exact absurd rfl h'.ne_nil
    | cons d u => exact first

theorem Chained.append_operator (h : Chained t) (h' : Chained u) (operator : isOperator c = true)
    (next : ∀ b ∈ u.head?, Reckoner.follows c b = true) : Chained (t ++ c :: u) := by
  have rest : List.IsChain (fun a b => Reckoner.follows a b = true) (c :: (u ++ [')'])) := by
    refine List.isChain_cons.2 ⟨fun b first => next b ?_, (List.isChain_cons.1 h').2⟩
    cases u with
    | nil => exact absurd rfl h'.ne_nil
    | cons d u => exact first
  unfold Chained
  rw [List.append_assoc, List.cons_append]
  refine List.isChain_cons.2 ⟨fun b first => h.head ?_, List.isChain_append.2
    ⟨h.inside, rest, fun a last b first => ?_⟩⟩
  · cases t with
    | nil => exact absurd rfl h.ne_nil
    | cons d t => exact first
  · cases first
    exact follows_of_close (h.isCanonicalChar a (List.mem_of_mem_getLast? last)) (h.last last)
      operator

/-- The positions in a text have no part in how its parentheses are nested. -/
theorem openAtEnd_position {depth d : Nat} (closed : openAtEnd position depth t = .ok d)
    (other : Nat) : openAtEnd other depth t = .ok d := by
  induction t generalizing position other depth with
  | nil => exact closed
  | cons c t ih =>
    by_cases open' : c = '('
    · subst open'
      exact ih closed _
    · by_cases close : c = ')'
      · subst close
        cases depth with
        | zero => contradiction
        | succ depth => exact ih closed _
      · rw [openAtEnd_other open' close] at closed ⊢
        exact ih closed _

/-- The scan for points begins anew behind an operator. -/
theorem checkSinglePoint_append_operator {seen : Bool}
    (first : checkSinglePoint seen position t = .ok ()) (operator : isOperator c = true)
    (points : PointsApart u) : checkSinglePoint seen position (t ++ c :: u) = .ok () := by
  induction t generalizing seen position with
  | nil =>
    have point : (c == '.') = false := by
      rw [beq_eq_false_iff_ne]
      rintro rfl
      contradiction
    have rest : checkSinglePoint false (position + 1) u = .ok () :=
      checkSinglePoint_eq_ok points nofun
    cases seen <;> simp [checkSinglePoint, point, operator, rest]
  | cons d t ih =>
    rw [checkSinglePoint] at first
    rw [List.cons_append, checkSinglePoint]
    split at first
    · contradiction
    next fits =>
      rw [if_neg fits]
      exact ih first

theorem PointsApart.append_operator (h : PointsApart t) (h' : PointsApart u)
    (operator : isOperator c = true) : PointsApart (t ++ c :: u) := by
  have first : checkSinglePoint false 0 t = .ok () := checkSinglePoint_eq_ok h nofun
  exact pointsApart_of_checkSinglePoint (checkSinglePoint_append_operator first operator h')

theorem PointsApart.append (none : '.' ∉ t) (h : PointsApart u) : PointsApart (t ++ u) := by
  induction t with
  | nil => exact h
  | cons c t ih =>
    have rest := ih fun member => none (.tail _ member)
    intro v w x shape
    cases v with
    | nil => exact absurd ((List.cons.inj shape).1 ▸ .head _) none
    | cons d v => exact rest v w x (List.cons.inj shape).2

theorem Chained.group (h : Chained t) : Chained ('(' :: (t ++ [')'])) := by
  have whole : List.IsChain (fun a b => Reckoner.follows a b = true)
      (('(' :: (t ++ [')'])) ++ [')']) := by
    refine List.isChain_append.2 ⟨h, List.isChain_singleton _, fun a last b head => ?_⟩
    rw [← List.cons_append, List.getLast?_concat] at last
    cases last
    cases head
    rfl
  exact List.isChain_cons_cons.2 ⟨rfl, whole⟩

/-- Two expressions with an operator between them. -/
theorem Accepted.append_operator (h : Accepted t) (h' : Accepted u) (operator : isOperator c = true)
    (next : ∀ b ∈ u.head?, Reckoner.follows c b = true) : Accepted (t ++ c :: u) := by
  obtain ⟨closed, chained, points⟩ := accepted_iff.1 h
  obtain ⟨closed', chained', points'⟩ := accepted_iff.1 h'
  refine accepted_iff.2 ⟨?_, chained.append_operator chained' operator next,
    points.append_operator points' operator⟩
  have other : c ≠ '(' ∧ c ≠ ')' := by
    constructor <;> rintro rfl <;> contradiction
  rw [openAtEnd_append_of_ok closed, openAtEnd_other other.1 other.2]
  exact openAtEnd_position closed' _

/-- Two expressions side by side, the first of which has no points. -/
theorem Accepted.append (h : Accepted t) (h' : Accepted u) (none : '.' ∉ t)
    (joint : ∀ a ∈ t.getLast?, ∀ b ∈ u.head?, Reckoner.follows a b = true) : Accepted (t ++ u) := by
  obtain ⟨closed, chained, _⟩ := accepted_iff.1 h
  obtain ⟨closed', chained', points'⟩ := accepted_iff.1 h'
  refine accepted_iff.2 ⟨?_, chained.append chained' joint, points'.append none⟩
  rw [openAtEnd_append_of_ok closed]
  exact openAtEnd_position closed' _

end Reckoner
