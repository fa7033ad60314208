import Reckoner.Proofs.Expression.Acceptance
import Reckoner.Proofs.Expression.Cut
import Reckoner.Proofs.Text.Cursor

set_option autoImplicit false

namespace Reckoner

variable {t u : Text} {c d : Char} {p q : Char → Char → Bool}

/-- The neighbours that are multiplied without a sign: a group and a group, a digit and a group or a
letter, a group and a digit. -/
def FactorsMeet (c d : Char) : Prop :=
  (c = ')' ∧ d = '(') ∨ (c.isDigit = true ∧ (d = '(' ∨ d.isAlpha = true)) ∨
    (c = ')' ∧ d.isDigit = true)

/-- The second text is the first one with a `*` between neighbours that are multiplied, and nothing
else is added. -/
inductive ProductsMarked : Text → Text → Prop
  | nil : ProductsMarked [] []
  | last (c : Char) : ProductsMarked [c] [c]
  | marked {c d : Char} {t u : Text} (meet : FactorsMeet c d) (rest : ProductsMarked (d :: t) u) :
    ProductsMarked (c :: d :: t) (c :: '*' :: u)
  | kept {c d : Char} {t u : Text} (apart : ¬ FactorsMeet c d) (rest : ProductsMarked (d :: t) u) :
    ProductsMarked (c :: d :: t) (c :: u)

theorem isFactorPair_iff : isFactorPair c d = true ↔ FactorsMeet c d := by
  simp [isFactorPair, FactorsMeet, isGroupPair, isNumberFirst, isNumberLast, or_assoc]

/-- A pass that marks nothing beside a mark can be made together with the pass before it. -/
theorem insertBetween_insertBetween (before : ∀ c, q c '*' = false) (after : ∀ d, q '*' d = false)
    (t : Text) :
    insertBetween q (insertBetween p t) = insertBetween (fun c d => p c d || q c d) t := by
  fun_induction insertBetween p t with
  | case1 c d r marked ih =>
    obtain ⟨r', shape⟩ : ∃ r', insertBetween p (d :: r) = d :: r' :=
      List.head?_eq_some_iff.1 (insertBetween_cons p d r)
    rw [shape] at ih ⊢
    have first : insertBetween q (c :: '*' :: d :: r') = c :: insertBetween q ('*' :: d :: r') := by
      rw [insertBetween, before, if_neg Bool.false_ne_true]
    have second : insertBetween q ('*' :: d :: r') = '*' :: insertBetween q (d :: r') := by
      rw [insertBetween, after, if_neg Bool.false_ne_true]
    rw [first, second, ih, insertBetween, marked, Bool.true_or, if_pos rfl]
  | case2 c d r kept ih =>
    obtain ⟨r', shape⟩ : ∃ r', insertBetween p (d :: r) = d :: r' :=
      List.head?_eq_some_iff.1 (insertBetween_cons p d r)
    have none : p c d = false := by simpa using kept
    rw [shape] at ih ⊢
    rw [insertBetween, insertBetween, ih, none, Bool.false_or]
  | case3 t short =>
    rcases t with _ | ⟨c, _ | ⟨d, r⟩⟩
    · rfl
    · rfl
    · exact absurd rfl (short c d r)

theorem markProducts_eq_insertBetween (t : Text) : markProducts t = insertBetween isFactorPair t := by
  have digit : ('*').isDigit = false := by decide
  have letter : ('*').isAlpha = false := by decide
  have numberFirst (p : Char → Char → Bool) : insertBetween isNumberFirst (insertBetween p t) = _ :=
    insertBetween_insertBetween (fun c => by simp [isNumberFirst, letter])
      (fun d => by simp [isNumberFirst, digit]) t
  have numberLast (p : Char → Char → Bool) : insertBetween isNumberLast (insertBetween p t) = _ :=
    insertBetween_insertBetween (fun c => by simp [isNumberLast, digit])
      (fun d => by simp [isNumberLast]) t
  unfold markProducts
  rw [numberFirst, numberLast]
  rfl

theorem ProductsMarked.eq_markProducts (h : ProductsMarked t u) : u = markProducts t := by
  rw [markProducts_eq_insertBetween]
  induction h with
  | nil => rfl
  | last c => rfl
  | marked meet _ ih => rw [insertBetween, if_pos (isFactorPair_iff.2 meet), ih]
  | kept apart _ ih => rw [insertBetween, if_neg (mt isFactorPair_iff.1 apart), ih]

theorem productsMarked_markProducts (t : Text) : ProductsMarked t (markProducts t) := by
  rw [markProducts_eq_insertBetween]
  fun_induction insertBetween isFactorPair t with
  | case1 c d r pair ih => exact .marked (isFactorPair_iff.1 pair) ih
  | case2 c d r other ih => exact .kept (mt isFactorPair_iff.2 other) ih
  | case3 t short =>
    rcases t with _ | ⟨c, _ | ⟨d, r⟩⟩
    · exact .nil
    · exact .last c
    · exact absurd rfl (short c d r)

/-- Every group before a group, found from the left without overlaps, gets its mark. -/
def replaceGroupPairs : Text → Text
  | ')' :: '(' :: r => ')' :: '*' :: '(' :: replaceGroupPairs r
  | c :: r => c :: replaceGroupPairs r
  | [] => []

/-- A mark is put between two neighbours of the relation, and both are passed up to the second one. -/
def markTurn (p : Char → Char → Bool) (c d : Char) : Text × Char :=
  if p c d then ([c, '*'], d) else ([c], d)

/-- No two of these pairs overlap, so none is missed. -/
theorem replaceGroupPairs_eq (t : Text) : replaceGroupPairs t = insertBetween isGroupPair t := by
  fun_induction replaceGroupPairs t with
  | case1 r ih =>
    have opened : insertBetween isGroupPair ('(' :: r) = '(' :: insertBetween isGroupPair r := by
      cases r with
      | nil => rfl
      | cons d r => rfl
    rw [ih, insertBetween, if_pos (by rfl), opened]
  | case2 c r other ih =>
    rw [ih]
    cases r with
    | nil => rfl
    | cons d r =>
      have none : ¬ isGroupPair c d = true := by
        intro pair
        simp only [isGroupPair, Bool.and_eq_true, beq_iff_eq] at pair
        exact other r pair.1 (by rw [pair.2])
      rw [insertBetween, if_neg none]
  | case3 => rfl

theorem insertBetween_markTurn (p : Char → Char → Bool) (c d : Char) (t : Text) :
    (markTurn p c d).1 ++ insertBetween p ((markTurn p c d).2 :: t) = insertBetween p (c :: d :: t) := by
  unfold markTurn
  rw [insertBetween]
  split
  · rfl
  · rfl

theorem sweep_markTurn (p : Char → Char → Bool) (t : Text) :
    (Cursor.mk [] t).sweep (markTurn p) = insertBetween p t :=
  Cursor.sweep_eq rfl (fun _ => rfl) (insertBetween_markTurn p) _

/-- Marking implicit products puts a mark between exactly the factors that meet in the given text, as a
replacement and two sweeps over the growing text do; none meet in what they leave, and marking once
more changes nothing. -/
theorem markProducts_between_factors (t : Text) :
    (∀ u, ProductsMarked t u ↔ u = markProducts t) ∧
      (Cursor.mk [] ((Cursor.mk [] (replaceGroupPairs t)).sweep (markTurn isNumberFirst))).sweep
        (markTurn isNumberLast) = markProducts t ∧
      List.IsChain (fun c d => ¬ FactorsMeet c d) (markProducts t) ∧
      markProducts (markProducts t) = markProducts t := by
  have apart : List.IsChain (fun c d => ¬ FactorsMeet c d) (markProducts t) := by
    refine (isChain_markProducts t).imp ?_
    intro c d none meet
    have pair := isFactorPair_iff.2 meet
    simp [isFactorPair, none] at pair
  refine ⟨fun u => ⟨ProductsMarked.eq_markProducts, ?_⟩, ?_, apart, ?_⟩
  · rintro rfl
    exact productsMarked_markProducts t
  · rw [replaceGroupPairs_eq, sweep_markTurn, sweep_markTurn]
    rfl
  · rw [markProducts_eq_insertBetween (markProducts t)]
    apply insertBetween_eq_self
    refine apart.imp ?_
    intro c d apart
    simpa using mt isFactorPair_iff.1 apart

example : markProducts ['2', 'x', '(', '3', ')', '(', '4', ')', '2', 'y'] =
    ['2', '*', 'x', '(', '3', ')', '*', '(', '4', ')', '*', '2', '*', 'y'] := by decide

end Reckoner
