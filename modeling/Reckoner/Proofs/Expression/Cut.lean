import Reckoner.Proofs.Expression.Acceptance
import Reckoner.Proofs.Expression.Substitution

set_option autoImplicit false

/- Texts cut in two. The steps before the glyphs are replaced leave a character that is no part of a name
or numeral, and no space or sign, and rewrite what stands on either side of it on its own. The steps
behind do the same at most characters that have nothing to do with glyphs. -/
namespace Reckoner

variable {constants : Table Text Constant} {c : Char} {p : Char → Bool} {apart : Char → Char → Bool}
  {raw r t t' u w : Text}

/-- A character that is no part of a name or numeral, and no space or sign. -/
structure IsBreak (c : Char) : Prop where
  unnamed : isConstantChar c = false
  digitless : isDecimalDigit c = false
  notPoint : c ≠ '.'
  notSpace : c ≠ ' '
  unsigned : isSign c = false

instance : DecidablePred IsBreak := fun c =>
  decidable_of_iff (isConstantChar c = false ∧ isDecimalDigit c = false ∧ c ≠ '.' ∧ c ≠ ' ' ∧
      isSign c = false)
    ⟨fun ⟨unnamed, digitless, notPoint, notSpace, unsigned⟩ =>
        ⟨unnamed, digitless, notPoint, notSpace, unsigned⟩,
      fun ⟨unnamed, digitless, notPoint, notSpace, unsigned⟩ =>
        ⟨unnamed, digitless, notPoint, notSpace, unsigned⟩⟩

theorem IsBreak.ne_mark (cut : IsBreak c) : c ≠ 'E' := by
  rintro rfl
  exact absurd cut.unnamed (by decide)

theorem takeWhile_append_cons (other : p c = false) (t u : Text) :
    (t ++ c :: u).takeWhile p = t.takeWhile p := by
  induction t with
  | nil => simp [other]
  | cons d t ih => cases inside : p d <;> simp [inside, ih]

theorem dropWhile_append_cons (other : p c = false) (t u : Text) :
    (t ++ c :: u).dropWhile p = t.dropWhile p ++ c :: u := by
  induction t with
  | nil => simp [other]
  | cons d t ih => cases inside : p d <;> simp [inside, ih]

namespace Numeral

theorem digits_cut (cut : IsBreak c) (t u : Text) : digits (t ++ c :: u) = digits t :=
  takeWhile_append_cons cut.digitless t u

theorem afterDigits_cut (cut : IsBreak c) (t u : Text) :
    afterDigits (t ++ c :: u) = afterDigits t ++ c :: u :=
  dropWhile_append_cons cut.digitless t u

theorem splitSign_cut (cut : IsBreak c) (t u : Text) :
    splitSign (t ++ c :: u) = ((splitSign t).1, (splitSign t).2 ++ c :: u) := by
  have unsigned {d : Char} (unsigned : isSign d = false) (r : Text) :
      splitSign (d :: r) = (false, d :: r) := splitSign_of_no_sign unsigned
  cases t with
  | nil => exact unsigned cut.unsigned u
  | cons d t =>
    by_cases sign : isSign d = true
    · rcases isSign_iff.1 sign with rfl | rfl <;> rfl
    · rw [List.cons_append, unsigned (by simpa using sign), unsigned (by simpa using sign)]
      rfl

theorem splitPlaces_cut (cut : IsBreak c) (t u : Text) :
    splitPlaces (t ++ c :: u) = ((splitPlaces t).1, (splitPlaces t).2 ++ c :: u) := by
  cases t with
  | nil => exact splitPlaces_of_no_point cut.notPoint u
  | cons d t =>
    by_cases point : d = '.'
    · subst point
      simp only [List.cons_append, splitPlaces, digits_cut cut, afterDigits_cut cut]
      split <;> rfl
    · rw [List.cons_append, splitPlaces_of_no_point point, splitPlaces_of_no_point point]
      rfl

theorem power?_cut (cut : IsBreak c) (t u : Text) :
    power? (t ++ c :: u) = (power? t).map fun (power, rest) => (power, rest ++ c :: u) := by
  simp only [power?, splitSign_cut cut, digits_cut cut, afterDigits_cut cut]
  split <;> rfl

theorem scientific?_cut (cut : IsBreak c) (t u : Text) :
    scientific? (t ++ c :: u) = (scientific? t).map fun (d, rest) => (d, rest ++ c :: u) := by
  unfold scientific?
  simp only [digits_cut cut, afterDigits_cut cut, splitPlaces_cut cut]
  split
  · rfl
  · cases (splitPlaces (afterDigits t)).2 with
    | nil =>
      rw [List.nil_append]
      split
      next same => exact absurd (List.cons.inj same).1 cut.ne_mark
      next => rfl
    | cons d r =>
      by_cases mark : d = 'E'
      · subst mark
        simp only [List.cons_append, power?_cut cut, Option.map_map]
        rfl
      · rw [List.cons_append]
        split
        next same => exact absurd (List.cons.inj same).1 mark
        next =>
          split
          next same => exact absurd (List.cons.inj same).1 mark
          next => rfl

/-- A numeral with an exponent begins with a digit. -/
theorem scientific?_of_no_digit (digitless : isDecimalDigit c = false) (t : Text) :
    scientific? (c :: t) = none := by
  have none : digits (c :: t) = [] := List.takeWhile_cons_of_neg (by simp [digitless])
  unfold scientific?
  simp only [none, List.isEmpty_nil, if_true]

end Numeral

theorem expandScientific_of_some {d : Decimal} {rest : Text}
    (found : Numeral.scientific? (c :: t) = some (d, rest)) :
    expandScientific (c :: t) = Double.plain (Numeral.signed false d) ++ expandScientific rest := by
  rw [expandScientific]
  split
  next same =>
    rw [found] at same
    cases same
    rfl
  next same =>
    rw [found] at same
    contradiction

theorem expandScientific_of_none (missed : Numeral.scientific? (c :: t) = none) :
    expandScientific (c :: t) =
      c :: (t.takeWhile (continuesDigits c) ++ expandScientific (t.dropWhile (continuesDigits c))) := by
  rw [expandScientific]
  split
  next same =>
    rw [missed] at same
    contradiction
  next => rfl

theorem expandScientific_cons (digitless : isDecimalDigit c = false) (t : Text) :
    expandScientific (c :: t) = c :: expandScientific t := by
  have other (d : Char) : continuesDigits c d = false := by
    rw [continuesDigits, digitless, Bool.false_and]
  rw [expandScientific_of_none (Numeral.scientific?_of_no_digit digitless t)]
  cases t with
  | nil => rfl
  | cons d t => rw [List.takeWhile_cons_of_neg (by simp [other]),
      List.dropWhile_cons_of_neg (by simp [other]), List.nil_append]

theorem expandScientific_cut (cut : IsBreak c) (t u : Text) :
    expandScientific (t ++ c :: u) = expandScientific t ++ c :: expandScientific u := by
  fun_induction expandScientific t with
  | case1 => exact expandScientific_cons cut.digitless u
  | case2 d r value rest found ih =>
    have found' : Numeral.scientific? (d :: (r ++ c :: u)) = some (value, rest ++ c :: u) := by
      rw [← List.cons_append, Numeral.scientific?_cut cut, found]
      rfl
    rw [List.cons_append, expandScientific_of_some found', ih, List.append_assoc]
  | case3 d r missed ih =>
    have missed' : Numeral.scientific? (d :: (r ++ c :: u)) = none := by
      rw [← List.cons_append, Numeral.scientific?_cut cut, missed]
      rfl
    have other : continuesDigits d c = false := by
      rw [continuesDigits, cut.digitless, Bool.and_false]
    rw [List.cons_append, expandScientific_of_none missed', takeWhile_append_cons other,
      dropWhile_append_cons other, ih, List.cons_append, List.append_assoc]

theorem removeSpaces_cut (cut : IsBreak c) (t u : Text) :
    removeSpaces (t ++ c :: u) = removeSpaces t ++ c :: removeSpaces u := by
  have kept : (c != ' ') = true := bne_iff_ne.2 cut.notSpace
  unfold removeSpaces
  rw [List.filter_append, List.filter_cons, if_pos kept]

theorem replaceConstants_cut (cut : IsBreak c) (t u : Text) :
    replaceConstants constants (t ++ c :: u) = (replaceConstants constants t).bind fun t' =>
      (replaceConstants constants u).map fun u' => t' ++ c :: u' := by
  have alone : ∀ d ∈ [c], isConstantChar d = false := by simpa using cut.unnamed
  have before : CutBetween t ([c] ++ u) := .inr (by simpa using alone)
  have behind : CutBetween [c] u := .inl (by simpa using alone)
  rw [← List.singleton_append, replaceConstants_append before, replaceConstants_append behind,
    replaceConstants_of_none alone]
  cases replaceConstants constants t with
  | error m => rfl
  | ok t' => cases replaceConstants constants u <;> rfl

/-- The text in which the glyphs are replaced: the steps after the first one, up to the glyphs. -/
def spelledOut (t : Text) : Text := reduceSigns (expandScientific (removeSpaces t))

theorem spelledOut_cut (cut : IsBreak c) (t u : Text) :
    spelledOut (t ++ c :: u) = spelledOut t ++ c :: spelledOut u := by
  unfold spelledOut
  rw [removeSpaces_cut cut, expandScientific_cut cut, reduceSigns_append_cons cut.unsigned]

/-- The text in which the glyphs are replaced, for an expression as it is given. -/
def glyphText (constants : Table Text Constant) (raw : Text) : Except Mishap Text :=
  (replaceConstants constants raw).map spelledOut

theorem canonical_glyphText (constants : Table Text Constant) (raw : Text) :
    (canonical constants raw).outcome =
      (glyphText constants raw).map fun t => markProducts (replaceGlyphs t) := by
  rw [canonical_outcome]
  unfold glyphText
  cases replaceConstants constants raw <;> rfl

theorem glyphText_nil : glyphText constants [] = .ok [] := by
  rw [glyphText, replaceConstants]
  simp only [Except.map, spelledOut, removeSpaces, List.filter_nil, expandScientific, reduceSigns_nil]

/-- At a cut both sides are spelled out on their own. -/
theorem glyphText_cut (cut : IsBreak c) (t u : Text) :
    glyphText constants (t ++ c :: u) = (glyphText constants t).bind fun t' =>
      (glyphText constants u).map fun u' => t' ++ c :: u' := by
  unfold glyphText
  rw [replaceConstants_cut cut]
  cases replaceConstants constants t with
  | error m => rfl
  | ok t' =>
    cases replaceConstants constants u with
    | error m => rfl
    | ok u' => exact congrArg Except.ok (spelledOut_cut cut t' u')

/-- A character that no glyph is, and that is no part of the notation of an inverse function. -/
def isUnglyphed (c : Char) : Bool :=
  !(isRootGlyph c || isRaisedDigit c || c == indexMark || c == openMark || c == closeMark ||
    c == '-' || c == '1' || c == 's' || c == 'i' || c == 'n' || c == 'c' || c == 'o' || c == 't' ||
    c == 'a')

theorem ne_of_isUnglyphed {d : Char} (other : isUnglyphed c = true) (part : isUnglyphed d = false) :
    d ≠ c := by
  intro same
  rw [same, other] at part
  contradiction

theorem not_isRootGlyph_of_isUnglyphed (other : isUnglyphed c = true) : isRootGlyph c = false := by
  simp only [isUnglyphed, Bool.not_eq_true', Bool.or_eq_false_iff] at other
  exact other.1.1.1.1.1.1.1.1.1.1.1.1.1

theorem not_isRaisedDigit_of_isUnglyphed (other : isUnglyphed c = true) :
    isRaisedDigit c = false := by
  simp only [isUnglyphed, Bool.not_eq_true', Bool.or_eq_false_iff] at other
  exact other.1.1.1.1.1.1.1.1.1.1.1.1.2

theorem startsWith_append_cons (other : p c = false) (t u : Text) :
    startsWith p (t ++ c :: u) = startsWith p t := by
  cases t with
  | nil => exact other
  | cons d t => rfl

theorem replaceIndexed_cut (other : isUnglyphed c = true) (t u : Text) :
    replaceIndexed (t ++ c :: u) = replaceIndexed t ++ c :: replaceIndexed u := by
  have root := not_isRootGlyph_of_isUnglyphed other
  have mark : (c == indexMark) = false :=
    beq_eq_false_iff_ne.2 (ne_of_isUnglyphed other (by decide)).symm
  have square : (c == '√') = false :=
    beq_eq_false_iff_ne.2 (ne_of_isUnglyphed other (by decide)).symm
  have stop : (isRootGlyph c || c == indexMark) = false := by rw [root, mark]; rfl
  have single (u : Text) : replaceIndexed (c :: u) = c :: replaceIndexed u := by
    cases u with
    | nil => rfl
    | cons d u => rw [replaceIndexed, mark, Bool.false_and, Bool.false_and, if_neg Bool.false_ne_true]
  fun_induction replaceIndexed t with
  | case1 d e r indexed ih =>
    rw [List.cons_append, List.cons_append, replaceIndexed, startsWith_append_cons stop,
      if_pos indexed, ih]
    rfl
  | case2 d e r kept ih =>
    rw [List.cons_append, List.cons_append, replaceIndexed, startsWith_append_cons stop,
      if_neg kept, ← List.cons_append, ih]
    rfl
  | case3 t short =>
    rcases t with _ | ⟨d, _ | ⟨e, r⟩⟩
    · exact single u
    · rw [List.singleton_append, replaceIndexed, square, Bool.and_false, Bool.false_and,
        if_neg Bool.false_ne_true, single]
      rfl
    · exact absurd rfl (short d e r)

theorem replaceGlyph_cut {glyph : Char} {family : Char → Bool} {replacement : Text}
    (other : c ≠ glyph) (apart : family c = false) (t u : Text) :
    replaceGlyph glyph family replacement (t ++ c :: u) =
      replaceGlyph glyph family replacement t ++ c :: replaceGlyph glyph family replacement u := by
  have kept : (c == glyph) = false := beq_eq_false_iff_ne.2 other
  induction t with
  | nil =>
    show replaceGlyph glyph family replacement (c :: u) =
      c :: replaceGlyph glyph family replacement u
    rw [replaceGlyph, kept, Bool.false_and, if_neg Bool.false_ne_true]
  | cons d t ih =>
    rw [List.cons_append, replaceGlyph, startsWith_append_cons apart, ih, replaceGlyph]
    split
    · rw [List.append_assoc]
    · rfl

/-- A word without the character that a text in front of it begins with. -/
theorem prefix_of_append_cons (absent : c ∉ w) (shape : t ++ c :: u = w ++ r) :
    ∃ r', t = w ++ r' := by
  rcases List.append_eq_append_iff.1 shape with ⟨a, rfl, last⟩ | ⟨a, rfl, _⟩
  · cases a with
    | nil => exact ⟨[], by simp⟩
    | cons d a =>
      cases (List.cons.inj last).1
      exact absurd (by simp) absent
  · exact ⟨a, rfl⟩

theorem replaceInverse_cut (other : isUnglyphed c = true) (t u : Text) :
    replaceInverse (t ++ c :: u) = replaceInverse t ++ c :: replaceInverse u := by
  have absent {w : Text} (part : ∀ d ∈ w, isUnglyphed d = false) : c ∉ w := fun member =>
    ne_of_isUnglyphed other (part c member) rfl
  have missed {c' : Char} {r w : Text} (part : ∀ d ∈ w, isUnglyphed d = false)
      (none : ∀ r', c' :: r ≠ w ++ r') (r' : Text) : c' :: (r ++ c :: u) ≠ w ++ r' := by
    intro same
    obtain ⟨rest, shape⟩ := prefix_of_append_cons (t := c' :: r) (absent part) same
    exact none rest shape
  have single (u : Text) : replaceInverse (c :: u) = c :: replaceInverse u := by
    have head (d : Char) (part : isUnglyphed d = false) : c ≠ d :=
      (ne_of_isUnglyphed other part).symm
    rw [replaceInverse]
    · exact fun r' same => absurd same (head 's' (by decide))
    · exact fun r' same => absurd same (head 'c' (by decide))
    · exact fun r' same => absurd same (head 't' (by decide))
  fun_induction replaceInverse t with
  | case1 r ih | case2 r ih | case3 r ih => simp [replaceInverse, ih]
  | case4 d r sine cosine tangent ih =>
    rw [List.cons_append, replaceInverse, ih]
    · rfl
    · rintro r' rfl same
      exact missed (w := ['s', 'i', 'n', '{', '-', '1', '}']) (by decide)
        (fun r' shape => sine r' (List.cons.inj shape).1 (List.cons.inj shape).2) r'
        (congrArg (List.cons 's') same)
    · rintro r' rfl same
      exact missed (w := ['c', 'o', 's', '{', '-', '1', '}']) (by decide)
        (fun r' shape => cosine r' (List.cons.inj shape).1 (List.cons.inj shape).2) r'
        (congrArg (List.cons 'c') same)
    · rintro r' rfl same
      exact missed (w := ['t', 'a', 'n', '{', '-', '1', '}']) (by decide)
        (fun r' shape => tangent r' (List.cons.inj shape).1 (List.cons.inj shape).2) r'
        (congrArg (List.cons 't') same)
  | case5 => exact single u

theorem replaceGlyphs_nil : replaceGlyphs [] = [] := by
  simp [replaceGlyphs, replaceIndexed, replaceGlyph, replaceInverse]

theorem replaceGlyphs_cut (other : isUnglyphed c = true) (t u : Text) :
    replaceGlyphs (t ++ c :: u) = replaceGlyphs t ++ c :: replaceGlyphs u := by
  have apart (d : Char) (part : isUnglyphed d = false) : c ≠ d := (ne_of_isUnglyphed other part).symm
  have root := not_isRootGlyph_of_isUnglyphed other
  have raised := not_isRaisedDigit_of_isUnglyphed other
  unfold replaceGlyphs
  simp only [replaceIndexed_cut other, replaceGlyph_cut (apart '√' (by decide)) root,
    replaceGlyph_cut (apart '∛' (by decide)) root, replaceGlyph_cut (apart '∜' (by decide)) root,
    replaceGlyph_cut (apart '²' (by decide)) raised, replaceGlyph_cut (apart '³' (by decide)) raised,
    replaceInverse_cut other]

theorem insertBetween_append
    (together : ∀ a ∈ t.getLast?, ∀ b ∈ u.head?, apart a b = false) :
    insertBetween apart (t ++ u) = insertBetween apart t ++ insertBetween apart u := by
  fun_induction insertBetween apart t with
  | case1 c d r between ih =>
    rw [List.cons_append, List.cons_append, insertBetween, if_pos between, ← List.cons_append,
      ih fun a last => together a (List.mem_getLast?_cons last)]
    rfl
  | case2 c d r kept ih =>
    rw [List.cons_append, List.cons_append, insertBetween, if_neg kept, ← List.cons_append,
      ih fun a last => together a (List.mem_getLast?_cons last)]
    rfl
  | case3 t short =>
    rcases t with _ | ⟨c, _ | ⟨d, r⟩⟩
    · rfl
    · cases u with
      | nil => rfl
      | cons d u =>
        have kept := together c rfl d rfl
        rw [List.singleton_append, insertBetween, kept, if_neg Bool.false_ne_true]
        rfl
    · exact absurd rfl (short c d r)

theorem getLast?_insertBetween (t : Text) : (insertBetween apart t).getLast? = t.getLast? := by
  have ne_nil (d : Char) (r : Text) : insertBetween apart (d :: r) ≠ [] := by
    intro none
    have head := insertBetween_cons apart d r
    rw [none] at head
    contradiction
  have skip (c d : Char) (r : Text) : (c :: insertBetween apart (d :: r)).getLast? =
      (insertBetween apart (d :: r)).getLast? := by
    obtain ⟨e, s, shape⟩ := List.exists_cons_of_ne_nil (ne_nil d r)
    rw [shape, List.getLast?_cons_cons]
  fun_induction insertBetween apart t with
  | case1 c d r between ih =>
    rw [List.getLast?_cons_cons, skip, ih, List.getLast?_cons_cons]
  | case2 c d r kept ih => rw [skip, ih, List.getLast?_cons_cons]
  | case3 => rfl

theorem head?_insertBetween (t : Text) : (insertBetween apart t).head? = t.head? := by
  cases t with
  | nil => rfl
  | cons c t => exact insertBetween_cons apart c t

def isFactorPair (a b : Char) : Bool := isGroupPair a b || isNumberFirst a b || isNumberLast a b

/-- Where no product is marked between two texts, each is marked on its own. -/
theorem markProducts_append
    (together : ∀ a ∈ t.getLast?, ∀ b ∈ u.head?, isFactorPair a b = false) :
    markProducts (t ++ u) = markProducts t ++ markProducts u := by
  have each (a : Char) (last : a ∈ t.getLast?) (b : Char) (head : b ∈ u.head?) :
      isGroupPair a b = false ∧ isNumberFirst a b = false ∧ isNumberLast a b = false := by
    have none := together a last b head
    simpa [isFactorPair, and_assoc] using none
  unfold markProducts
  rw [insertBetween_append, insertBetween_append, insertBetween_append]
  · intro a last b head
    rw [getLast?_insertBetween, getLast?_insertBetween] at last
    rw [head?_insertBetween, head?_insertBetween] at head
    exact (each a last b head).2.2
  · intro a last b head
    rw [getLast?_insertBetween] at last
    rw [head?_insertBetween] at head
    exact (each a last b head).2.1
  · intro a last b head
    exact (each a last b head).1

theorem head?_markProducts (t : Text) : (markProducts t).head? = t.head? := by
  unfold markProducts
  rw [head?_insertBetween, head?_insertBetween, head?_insertBetween]

theorem getLast?_markProducts (t : Text) : (markProducts t).getLast? = t.getLast? := by
  unfold markProducts
  rw [getLast?_insertBetween, getLast?_insertBetween, getLast?_insertBetween]

/-- No product is marked beside a point. -/
theorem markProducts_point (t u : Text) :
    markProducts (t ++ '.' :: u) = markProducts t ++ '.' :: markProducts u := by
  have notLetter : ('.').isAlpha = false := by decide
  have notDigit : ('.').isDigit = false := by decide
  have behind : markProducts (['.'] ++ u) = markProducts ['.'] ++ markProducts u := by
    apply markProducts_append
    intro a last b _
    cases last
    simp [isFactorPair, isGroupPair, isNumberFirst, isNumberLast, notDigit]
  have before : markProducts (t ++ '.' :: u) = markProducts t ++ markProducts ('.' :: u) := by
    apply markProducts_append
    intro a _ b head
    cases head
    simp [isFactorPair, isGroupPair, isNumberFirst, isNumberLast, notLetter, notDigit]
  rw [before]
  exact congrArg (markProducts t ++ ·) behind

/-- At a point both sides are finished on their own. -/
theorem finish_point (t u : Text) : finish (t ++ '.' :: u) = finish t ++ '.' :: finish u := by
  unfold finish
  rw [reduceSigns_append_cons rfl, replaceGlyphs_cut rfl, markProducts_point]

theorem head?_finish (other : isUnglyphed c = true) (unsigned : isSign c = false) (t : Text) :
    (finish (c :: t)).head? = some c := by
  have cut := replaceGlyphs_cut other [] (reduceSigns t)
  rw [List.nil_append, replaceGlyphs_nil, List.nil_append] at cut
  unfold finish
  rw [head?_markProducts, reduceSigns_cons, attachSign_of_not_isSign unsigned, cut]
  rfl

theorem getLast?_finish (other : isUnglyphed c = true) (unsigned : isSign c = false) (t : Text) :
    (finish (t ++ [c])).getLast? = some c := by
  have cut := replaceGlyphs_cut other (reduceSigns t) []
  rw [replaceGlyphs_nil] at cut
  unfold finish
  rw [getLast?_markProducts, reduceSigns_append_cons unsigned, reduceSigns_nil, cut]
  exact List.getLast?_concat

end Reckoner
