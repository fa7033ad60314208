import Reckoner.Proofs.Expression.Acceptance
import Reckoner.Proofs.Expression.Constants

set_option autoImplicit false

/- Canonical forms of canonical forms. All steps but the first leave an accepted expression as it is, and
no step takes a parenthesis away, as no step takes any character away that is no part of the notation
of numbers, names and glyphs. So a second pass changes an accepted expression just when a name in
it stands for a value: the value comes in parentheses, and these stay.

Such a name is left where a space between two letters was taken out, where the name of an inverse
function was formed, and where the value of another constant is itself written in letters. -/
namespace Reckoner

variable {constants : Table Text Constant} {t u raw : Text} {c kept : Char} {d : Decimal}
  {rest : Text}

/-- A character that no step takes away, since it belongs to no name, numeral or glyph and is no sign
or space. -/
def isKept (c : Char) : Bool :=
  !(isConstantChar c || isDecimalDigit c || isSign c || isRootGlyph c || isRaisedDigit c ||
    c == ' ' || c == '.' || c == indexMark || c == openMark || c == closeMark)

theorem ne_of_isKept (stays : isKept kept = true) (other : isKept c = false) : c ≠ kept := by
  intro same
  rw [same, stays] at other
  contradiction

theorem count_cons_of_other (stays : isKept kept = true) (other : isKept c = false) (t : Text) :
    (c :: t).count kept = t.count kept :=
  List.count_cons_of_ne (ne_of_isKept stays other)

theorem not_isConstantChar_of_isKept (stays : isKept kept = true) : isConstantChar kept = false := by
  simp only [isKept, Bool.not_eq_true', Bool.or_eq_false_iff] at stays
  exact stays.1.1.1.1.1.1.1.1.1

theorem not_isDecimalDigit_of_isKept (stays : isKept kept = true) : isDecimalDigit kept = false := by
  simp only [isKept, Bool.not_eq_true', Bool.or_eq_false_iff] at stays
  exact stays.1.1.1.1.1.1.1.1.2

theorem not_isSign_of_isKept (stays : isKept kept = true) : isSign kept = false := by
  simp only [isKept, Bool.not_eq_true', Bool.or_eq_false_iff] at stays
  exact stays.1.1.1.1.1.1.1.2

theorem count_removeSpaces (stays : isKept kept = true) (t : Text) :
    (removeSpaces t).count kept = t.count kept :=
  List.count_filter (bne_iff_ne.2 (ne_of_isKept stays (by decide)).symm)

theorem count_dropWhile {p : Char → Bool} (other : p kept = false) (t : Text) :
    (t.dropWhile p).count kept = t.count kept := by
  induction t with
  | nil => rfl
  | cons c t ih =>
    by_cases inside : p c = true
    · have apart : c ≠ kept := by
        rintro rfl
        rw [inside] at other
        contradiction
      rw [List.dropWhile_cons_of_pos inside, ih, List.count_cons_of_ne apart]
    · rw [List.dropWhile_cons_of_neg inside]

theorem count_splitPlaces (stays : isKept kept = true) (t : Text) :
    (Numeral.splitPlaces t).2.count kept = t.count kept := by
  unfold Numeral.splitPlaces
  split
  next r =>
    split
    · rfl
    · rw [count_cons_of_other stays (by decide)]
      exact count_dropWhile (not_isDecimalDigit_of_isKept stays) r
  next => rfl

theorem count_power? {power : Int} (stays : isKept kept = true)
    (found : Numeral.power? t = some (power, rest)) : rest.count kept = t.count kept := by
  have sign : (Numeral.splitSign t).2.count kept = t.count kept := by
    unfold Numeral.splitSign
    split
    · exact (count_cons_of_other stays (by decide) _).symm
    · exact (count_cons_of_other stays (by decide) _).symm
    · rfl
  simp only [Numeral.power?] at found
  split at found
  · contradiction
  · cases found
    rw [← sign]
    exact count_dropWhile (not_isDecimalDigit_of_isKept stays) _

/-- No numeral has such a character in it. -/
theorem count_scientific? (stays : isKept kept = true)
    (found : Numeral.scientific? t = some (d, rest)) : rest.count kept = t.count kept := by
  have before : (Numeral.splitPlaces (Numeral.afterDigits t)).2.count kept = t.count kept :=
    (count_splitPlaces stays _).trans (count_dropWhile (not_isDecimalDigit_of_isKept stays) t)
  simp only [Numeral.scientific?] at found
  split at found
  · contradiction
  · split at found
    next r shape =>
      obtain ⟨⟨power, after⟩, exponent, same⟩ := Option.map_eq_some_iff.1 found
      cases same
      rw [← before, shape, count_cons_of_other stays (by decide)]
      exact count_power? stays exponent
    next => contradiction

theorem count_expandScientific (stays : isKept kept = true) (t : Text) :
    t.count kept ≤ (expandScientific t).count kept := by
  fun_induction expandScientific t with
  | case1 => exact Nat.le_refl _
  | case2 c r d rest found ih =>
    rw [← count_scientific? stays found, List.count_append]
    omega
  | case3 c r missed ih =>
    have whole := congrArg (List.count kept)
      (List.takeWhile_append_dropWhile (p := continuesDigits c) (l := r))
    rw [List.count_append] at whole
    simp only [List.count_cons, List.count_append]
    omega

theorem count_reduceSigns (stays : isKept kept = true) (t : Text) :
    (reduceSigns t).count kept = t.count kept := by
  have flat {e : Char} (sign : isSign e = true) : (e == kept) = false := by
    rw [beq_eq_false_iff_ne]
    rintro rfl
    rw [not_isSign_of_isKept stays] at sign
    contradiction
  induction t with
  | nil => rfl
  | cons c t ih =>
    rw [reduceSigns_cons, List.count_cons, ← ih]
    cases reduceSigns t with
    | nil => exact List.count_cons
    | cons d r =>
      rw [attachSign]
      split
      next both =>
        have signs := Bool.and_eq_true_iff.1 both
        simp [List.count_cons, flat signs.1, flat signs.2, flat (isSign_combineSigns c d)]
      next => rw [List.count_cons]

theorem count_replaceIndexed (stays : isKept kept = true) (t : Text) :
    t.count kept ≤ (replaceIndexed t).count kept := by
  fun_induction replaceIndexed t with
  | case1 c d r indexed ih =>
    simp only [Bool.and_eq_true, beq_iff_eq] at indexed
    obtain ⟨⟨rfl, rfl⟩, _⟩ := indexed
    rw [count_cons_of_other stays (by decide), count_cons_of_other stays (by decide), List.count_cons]
    omega
  | case2 c d r other ih =>
    simp only [List.count_cons] at ih ⊢
    omega
  | case3 => exact Nat.le_refl _

theorem count_replaceGlyph {glyph : Char} {family : Char → Bool} {replacement : Text}
    (other : glyph ≠ kept) (t : Text) :
    t.count kept ≤ (replaceGlyph glyph family replacement t).count kept := by
  induction t with
  | nil => exact Nat.le_refl _
  | cons c t ih =>
    rw [replaceGlyph]
    split
    next found =>
      have same : c = glyph := by
        simp only [Bool.and_eq_true, beq_iff_eq] at found
        exact found.1
      rw [same, List.count_cons_of_ne other, List.count_append]
      omega
    next =>
      simp only [List.count_cons]
      omega

theorem count_replaceInverse (stays : isKept kept = true) (t : Text) :
    (replaceInverse t).count kept = t.count kept := by
  fun_induction replaceInverse t with
  | case1 r ih | case2 r ih | case3 r ih =>
    simp (disch := decide) only [count_cons_of_other stays, ih]
  | case4 c r _ _ _ ih => rw [List.count_cons, List.count_cons, ih]
  | case5 => rfl

theorem count_replaceGlyphs (stays : isKept kept = true) (t : Text) :
    t.count kept ≤ (replaceGlyphs t).count kept := by
  unfold replaceGlyphs
  rw [count_replaceInverse stays]
  refine Nat.le_trans (count_replaceIndexed stays t) ?_
  iterate 5 refine Nat.le_trans ?_ (count_replaceGlyph (ne_of_isKept stays (by decide)) _)
  exact Nat.le_refl _

theorem count_insertBetween (apart : Char → Char → Bool) (t : Text) :
    t.count kept ≤ (insertBetween apart t).count kept := by
  fun_induction insertBetween apart t with
  | case1 c d r between ih =>
    simp only [List.count_cons] at ih ⊢
    omega
  | case2 c d r together ih =>
    simp only [List.count_cons] at ih ⊢
    omega
  | case3 => exact Nat.le_refl _

theorem count_le_canonicalOfNamed (stays : isKept kept = true) (t : Text) :
    t.count kept ≤ (canonicalOfNamed t).count kept := by
  unfold canonicalOfNamed markProducts
  calc t.count kept = (removeSpaces t).count kept := (count_removeSpaces stays t).symm
    _ ≤ (expandScientific (removeSpaces t)).count kept := count_expandScientific stays _
    _ = (reduceSigns (expandScientific (removeSpaces t))).count kept :=
      (count_reduceSigns stays _).symm
    _ ≤ (replaceGlyphs (reduceSigns (expandScientific (removeSpaces t)))).count kept :=
      count_replaceGlyphs stays _
    _ ≤ _ := count_insertBetween _ _
    _ ≤ _ := count_insertBetween _ _
    _ ≤ _ := count_insertBetween _ _

theorem count_canonicalOfNamed (t : Text) : t.count '(' ≤ (canonicalOfNamed t).count '(' :=
  count_le_canonicalOfNamed (by decide) t

/-- A character that no step takes away is in the canonical form if it is in the expression. -/
theorem mem_canonical_of_isKept (stays : isKept kept = true) (member : kept ∈ raw)
    (written : (canonical constants raw).outcome = .ok t) : kept ∈ t := by
  rw [canonical_outcome] at written
  obtain ⟨named, replaced, rfl⟩ := map_eq_ok written
  have there := mem_replaceConstants (not_isConstantChar_of_isKept stays) member replaced
  have kept' := count_le_canonicalOfNamed stays named
  rw [← List.count_pos_iff] at there ⊢
  omega

/-- The names in an accepted expression are its runs of letters. -/
theorem Accepted.isRun_iff (h : Accepted t) (name : Text) :
    IsRun Char.isAlpha t name ↔ IsRun isConstantChar t name := by
  apply isRun_congr
  intro c member
  have canonical := isCanonicalChar_of_check h.checked c member
  have apart (d : Char) (other : isCanonicalChar d = false) : (c == d) = false := by
    rw [beq_eq_false_iff_ne]
    rintro rfl
    rw [canonical] at other
    contradiction
  simp [isConstantChar, apart 'π' (by decide), apart '∞' (by decide)]

/-- The canonical form of a checked canonical form is the same text just when no run of letters in it
is the name of a value. -/
theorem canonical_canonical_iff (written : (canonical constants raw).outcome = .ok t)
    (checked : (check t).outcome = .ok ()) : (canonical constants t).outcome = .ok t ↔
      ∀ name value, IsRun Char.isAlpha t name → constants.get? name = some value →
        value = .unset := by
  have accepted : Accepted t := ⟨⟨constants, raw, written⟩, checked⟩
  have chained := (accepted_iff.1 accepted).2.1
  simp only [canonical_outcome, accepted.isRun_iff]
  constructor
  · intro again name value run found
    obtain ⟨named, replaced, same⟩ := map_eq_ok again
    by_contra set
    have more := (count_replaceConstants replaced).2 ⟨name, run, value, found, set⟩
    have kept := count_canonicalOfNamed named
    rw [same] at kept
    omega
  · intro unset
    have same : replaceConstants constants t = .ok t := by
      apply replaceConstants_eq_self
      rintro ⟨name, run, value, found, set⟩
      exact set (unset name value run found)
    rw [same]
    exact congrArg Except.ok chained.canonicalOfNamed_eq_self

/-- Without the space the two letters name a constant, and a second pass puts in its value. -/
theorem canonical_spacedPi : (canonical Constant.builtin ['p', ' ', 'i']).outcome = .ok ['p', 'i'] ∧
    (check ['p', 'i']).outcome = .ok () ∧
      (canonical Constant.builtin ['p', 'i']).outcome ≠ .ok ['p', 'i'] := by
  have written : (canonical Constant.builtin ['p', ' ', 'i']).outcome = .ok ['p', 'i'] := by
    decide +kernel
  have checked : (check ['p', 'i']).outcome = .ok () := by decide +kernel
  refine ⟨written, checked, fun again => ?_⟩
  have run : IsRun Char.isAlpha ['p', 'i'] ['p', 'i'] :=
    ⟨by decide, by decide, [], [], rfl, nofun, nofun⟩
  have found : Constant.builtin.get? ['p', 'i'] = some (.number Constant.pi) := by decide +kernel
  have unset := (canonical_canonical_iff written checked).1 again _ _ run found
  contradiction

end Reckoner
