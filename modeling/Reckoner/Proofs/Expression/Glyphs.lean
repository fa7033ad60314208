import Reckoner.Proofs.Expression.Cut
import Reckoner.Proofs.Expression.Repeated

set_option autoImplicit false

/- Stacked glyphs. The glyphs are replaced one kind after the other, each time in what the last pass has
left. A glyph that a later pass is to keep, since another one follows it, can have lost that one by
then. So it is not the given text that decides: of two glyphs in a row the first is replaced as well,
if its turn comes after that of the second, and no third one keeps the second in its place. -/
namespace Reckoner

variable {constants : Table Text Constant} {raw t u w : Text} {c d g h : Char} {k : Nat}

def glyphReplacement : Char → Text
  | '√' => ['(', '2', ')', rootMark]
  | '∛' => ['(', '3', ')', rootMark]
  | '∜' => ['(', '4', ')', rootMark]
  | '²' => ['^', '(', '2', ')']
  | '³' => ['^', '(', '3', ')']
  | c => [c]

/-- The turn in which a glyph is replaced. There are five. -/
def turn : Char → Nat
  | '√' => 0
  | '∛' => 1
  | '∜' => 2
  | '²' => 3
  | '³' => 4
  | _ => 5

def sameFamily (g h : Char) : Bool :=
  (isRootGlyph g && isRootGlyph h) || (isRaisedDigit g && isRaisedDigit h)

/-- Whether a glyph is replaced with this text behind it: in its turn no glyph of its family follows
any more. -/
def isReplaced (g : Char) : Text → Bool
  | [] => true
  | h :: r => !sameFamily g h || (turn h < turn g && isReplaced h r)

def replaceUpTo (k : Nat) : Text → Text
  | [] => []
  | c :: r =>
    (if turn c < k && isReplaced c r then glyphReplacement c else [c]) ++ replaceUpTo k r

theorem turn_cases (glyph : turn g < 5) : g = '√' ∨ g = '∛' ∨ g = '∜' ∨ g = '²' ∨ g = '³' := by
  unfold turn at glyph
  split at glyph
  · exact .inl rfl
  · exact .inr (.inl rfl)
  · exact .inr (.inr (.inl rfl))
  · exact .inr (.inr (.inr (.inl rfl)))
  · exact .inr (.inr (.inr (.inr rfl)))
  · contradiction

theorem turn_injective (glyph : turn g < 5) (same : turn h = turn g) : h = g := by
  rcases turn_cases glyph with rfl | rfl | rfl | rfl | rfl <;>
    rcases turn_cases (same ▸ glyph) with rfl | rfl | rfl | rfl | rfl <;>
    first
    | rfl
    | exact absurd same (by decide)

/-- A replacement begins with no glyph, and has none in it. -/
theorem glyphReplacement_shape (glyph : turn g < 5) :
    ∃ c r, glyphReplacement g = c :: r ∧ ∀ d ∈ c :: r, turn d = 5 := by
  rcases turn_cases glyph with rfl | rfl | rfl | rfl | rfl <;> exact ⟨_, _, rfl, by decide⟩

theorem glyphReplacement_of_other (other : ¬ turn c < 5) : glyphReplacement c = [c] := by
  unfold turn at other
  unfold glyphReplacement
  split at other <;> first | rfl | exact absurd (by decide) other

theorem turn_of_sameFamily (family : sameFamily g h = true) : turn h < 5 := by
  simp only [sameFamily, isRootGlyph_iff, isRaisedDigit, Bool.or_eq_true, Bool.and_eq_true,
    beq_iff_eq] at family
  rcases family with ⟨_, rfl | rfl | rfl⟩ | ⟨_, rfl | rfl⟩ <;> decide

theorem sameFamily_of_other (other : turn h = 5) (g : Char) : sameFamily g h = false := by
  rw [← Bool.not_eq_true]
  intro family
  have glyph := turn_of_sameFamily family
  omega

theorem startsWith_glyphReplacement (glyph : turn h < 5) (g : Char) (t : Text) :
    startsWith (sameFamily g) (glyphReplacement h ++ t) = false := by
  obtain ⟨c, r, shape, other⟩ := glyphReplacement_shape glyph
  rw [shape]
  exact sameFamily_of_other (other c (.head _)) g

/-- In its turn a glyph is followed by another one of its family, unless it is to be replaced. -/
theorem startsWith_replaceUpTo (glyph : turn g < 5) (t : Text) :
    startsWith (sameFamily g) (replaceUpTo (turn g) t) = !isReplaced g t := by
  cases t with
  | nil => rfl
  | cons h r =>
    rw [replaceUpTo, isReplaced]
    by_cases before : (turn h < turn g && isReplaced h r) = true
    · have earlier : turn h < turn g := by
        rw [Bool.and_eq_true, decide_eq_true_iff] at before
        exact before.1
      rw [if_pos before, startsWith_glyphReplacement (by omega), before, Bool.or_true]
      rfl
    · rw [if_neg before]
      rw [Bool.not_eq_true] at before
      rw [before, Bool.or_false, Bool.not_not]
      rfl

theorem replaceGlyph_append {family : Char → Bool} {replacement : Text} (none : ∀ c ∈ w, c ≠ g)
    (t : Text) : replaceGlyph g family replacement (w ++ t) =
      w ++ replaceGlyph g family replacement t := by
  induction w with
  | nil => rfl
  | cons c w ih =>
    have other : (c == g) = false := beq_eq_false_iff_ne.2 (none c (.head _))
    rw [List.cons_append, replaceGlyph, other, Bool.false_and, if_neg Bool.false_ne_true,
      ih fun d member => none d (.tail _ member), List.cons_append]

/-- One turn. -/
theorem replaceGlyph_replaceUpTo (glyph : turn g < 5) (t : Text) :
    replaceGlyph g (sameFamily g) (glyphReplacement g) (replaceUpTo (turn g) t) =
      replaceUpTo (turn g + 1) t := by
  induction t with
  | nil => rfl
  | cons c r ih =>
    rw [replaceUpTo, replaceUpTo]
    by_cases same : c = g
    · subst same
      have now : ¬ (decide (turn c < turn c) && isReplaced c r) = true := by simp
      have next : (turn c < turn c + 1) = True := eq_true (Nat.lt_succ_self _)
      rw [if_neg now, List.singleton_append, replaceGlyph, startsWith_replaceUpTo glyph, ih, beq_self_eq_true,
        Bool.true_and, Bool.not_not]
      simp only [next, decide_true, Bool.true_and]
      split <;> rfl
    · have apart : turn c ≠ turn g := fun turns => same (turn_injective glyph turns)
      by_cases before : (turn c < turn g && isReplaced c r) = true
      · have both := before
        rw [Bool.and_eq_true, decide_eq_true_iff] at both
        have still : (turn c < turn g + 1 && isReplaced c r) = true := by
          rw [both.2, Bool.and_true, decide_eq_true_iff]
          omega
        obtain ⟨d, s, shape, other⟩ := glyphReplacement_shape (g := c) (by omega)
        rw [if_pos before, if_pos still, replaceGlyph_append, ih]
        rw [shape]
        intro e member equal
        have none := other e member
        rw [equal] at none
        omega
      · have still : ¬ (turn c < turn g + 1 && isReplaced c r) = true := by
          rw [Bool.and_eq_true, decide_eq_true_iff] at before ⊢
          intro both
          exact before ⟨by omega, both.2⟩
        rw [if_neg before, if_neg still, replaceGlyph_append, ih]
        intro e member
        rw [List.mem_singleton.1 member]
        exact same

theorem replaceUpTo_zero (t : Text) : replaceUpTo 0 t = t := by
  induction t with
  | nil => rfl
  | cons c r ih =>
    rw [replaceUpTo, ih]
    simp

/-- All the passes at once. -/
theorem replaceGlyphs_eq (t : Text) :
    replaceGlyphs t = replaceInverse (replaceUpTo 5 (replaceIndexed t)) := by
  have root {g : Char} (root : isRootGlyph g = true) (flat : isRaisedDigit g = false) :
      isRootGlyph = sameFamily g := by
    funext h
    simp [sameFamily, root, flat]
  have raised {g : Char} (flat : isRootGlyph g = false) (raised : isRaisedDigit g = true) :
      isRaisedDigit = sameFamily g := by
    funext h
    simp [sameFamily, raised, flat]
  have square (u : Text) :
      replaceGlyph '√' isRootGlyph ['(', '2', ')', rootMark] u = replaceUpTo 1 u := by
    have pass := replaceGlyph_replaceUpTo (g := '√') (by decide) u
    rw [show turn '√' = 0 from rfl, replaceUpTo_zero, ← root (by decide) (by decide)] at pass
    exact pass
  have cube (u : Text) : replaceGlyph '∛' isRootGlyph ['(', '3', ')', rootMark] (replaceUpTo 1 u) =
      replaceUpTo 2 u := by
    rw [root (g := '∛') (by decide) (by decide)]
    exact replaceGlyph_replaceUpTo (g := '∛') (by decide) u
  have fourth (u : Text) : replaceGlyph '∜' isRootGlyph ['(', '4', ')', rootMark]
      (replaceUpTo 2 u) = replaceUpTo 3 u := by
    rw [root (g := '∜') (by decide) (by decide)]
    exact replaceGlyph_replaceUpTo (g := '∜') (by decide) u
  have squared (u : Text) : replaceGlyph '²' isRaisedDigit ['^', '(', '2', ')'] (replaceUpTo 3 u) =
      replaceUpTo 4 u := by
    rw [raised (g := '²') (by decide) (by decide)]
    exact replaceGlyph_replaceUpTo (g := '²') (by decide) u
  have cubed (u : Text) : replaceGlyph '³' isRaisedDigit ['^', '(', '3', ')'] (replaceUpTo 4 u) =
      replaceUpTo 5 u := by
    rw [raised (g := '³') (by decide) (by decide)]
    exact replaceGlyph_replaceUpTo (g := '³') (by decide) u
  unfold replaceGlyphs
  simp only [square, cube, fourth, squared, cubed]

/-- The text with each glyph replaced that the given text has none of its family behind. -/
def singlePass : Text → Text
  | [] => []
  | [c] => glyphReplacement c
  | c :: d :: r =>
    if c == indexMark && d == '√' && !startsWith (fun c => isRootGlyph c || c == indexMark) r then
      rootMark :: singlePass r
    else (if sameFamily c d then [c] else glyphReplacement c) ++ singlePass (d :: r)

/-- The text with each glyph replaced that is replaced in its turn. -/
def allTurns : Text → Text
  | [] => []
  | [c] => glyphReplacement c
  | c :: d :: r =>
    if c == indexMark && d == '√' && !startsWith (fun c => isRootGlyph c || c == indexMark) r then
      rootMark :: allTurns r
    else (if isReplaced c (d :: r) then glyphReplacement c else [c]) ++ allTurns (d :: r)

/-- Whether of some two glyphs in a row the second is replaced before the first, since no glyph of
their family follows. -/
def HasDescent (t : Text) : Prop :=
  ∃ a g h b, t = a ++ g :: h :: b ∧ sameFamily g h = true ∧ turn h < turn g ∧
    startsWith (sameFamily h) b = false

theorem isReplaced_replaceIndexed (g : Char) (t : Text) :
    isReplaced g (replaceIndexed t) = isReplaced g t := by
  fun_induction replaceIndexed t generalizing g with
  | case1 c d r indexed ih =>
    simp only [Bool.and_eq_true, beq_iff_eq] at indexed
    obtain ⟨⟨rfl, rfl⟩, _⟩ := indexed
    rw [isReplaced, isReplaced, sameFamily_of_other (by decide), sameFamily_of_other (by decide)]
    rfl
  | case2 c d r other ih => rw [isReplaced, isReplaced, ih]
  | case3 => rfl

theorem replaceUpTo_replaceIndexed (t : Text) : replaceUpTo 5 (replaceIndexed t) = allTurns t := by
  have whole (c : Char) (r : Text) :
      (if turn c < 5 && isReplaced c r then glyphReplacement c else [c]) =
        if isReplaced c r then glyphReplacement c else [c] := by
    by_cases glyph : turn c < 5
    · simp [glyph]
    · simp [glyph, glyphReplacement_of_other glyph]
  fun_induction replaceIndexed t with
  | case1 c d r indexed ih =>
    rw [allTurns, if_pos indexed, replaceUpTo, whole, ih]
    show (if isReplaced rootMark (replaceIndexed r) then [rootMark] else [rootMark]) ++ _ = _
    rw [ite_self]
    rfl
  | case2 c d r other ih =>
    rw [allTurns, if_neg other, replaceUpTo, whole, ih, isReplaced_replaceIndexed]
  | case3 t short =>
    rcases t with _ | ⟨c, _ | ⟨d, r⟩⟩
    · rfl
    · rw [replaceUpTo, whole]
      exact List.append_nil (glyphReplacement c)
    · exact absurd rfl (short c d r)

theorem replaceGlyphs_eq_allTurns (t : Text) : replaceGlyphs t = replaceInverse (allTurns t) := by
  rw [replaceGlyphs_eq, replaceUpTo_replaceIndexed]

theorem not_hasDescent_nil : ¬ HasDescent [] := by
  rintro ⟨a, g, h, b, shape, _⟩
  exact absurd shape.symm (by simp)

theorem hasDescent_cons : HasDescent (c :: t) ↔ (∃ h b, t = h :: b ∧ sameFamily c h = true ∧
    turn h < turn c ∧ startsWith (sameFamily h) b = false) ∨ HasDescent t := by
  constructor
  · rintro ⟨a, g, h, b, shape, descent⟩
    cases a with
    | nil =>
      obtain ⟨rfl, rfl⟩ := List.cons.inj shape
      exact .inl ⟨h, b, rfl, descent⟩
    | cons d a => exact .inr ⟨a, g, h, b, (List.cons.inj shape).2, descent⟩
  · rintro (⟨h, b, rfl, descent⟩ | ⟨a, g, h, b, rfl, descent⟩)
    · exact ⟨[], c, h, b, rfl, descent⟩
    · exact ⟨c :: a, g, h, b, rfl, descent⟩

theorem HasDescent.cons (descent : HasDescent t) (c : Char) : HasDescent (c :: t) :=
  hasDescent_cons.2 (.inr descent)

/-- A glyph that is followed by another one and is replaced all the same is at the start of a row of
glyphs that descends to its end. -/
theorem hasDescent_of_isReplaced {r : Text} (replaced : isReplaced g (h :: r) = true)
    (family : sameFamily g h = true) : HasDescent (g :: h :: r) := by
  induction r generalizing g h with
  | nil =>
    rw [isReplaced, family, Bool.not_true, Bool.false_or, Bool.and_eq_true,
      decide_eq_true_iff] at replaced
    exact ⟨[], g, h, [], rfl, family, replaced.1, rfl⟩
  | cons c r ih =>
    rw [isReplaced, family, Bool.not_true, Bool.false_or, Bool.and_eq_true,
      decide_eq_true_iff] at replaced
    by_cases more : sameFamily h c = true
    · exact (ih replaced.2 more).cons g
    · refine ⟨[], g, h, c :: r, rfl, family, replaced.1, ?_⟩
      simpa [startsWith] using more

theorem isReplaced_of_apart {r : Text} (apart : startsWith (sameFamily g) r = false) :
    isReplaced g r = true := by
  cases r with
  | nil => rfl
  | cons h r =>
    have other : sameFamily g h = false := apart
    rw [isReplaced, other]
    rfl

theorem allTurns_eq_singlePass (none : ¬ HasDescent t) : allTurns t = singlePass t := by
  fun_induction singlePass t with
  | case1 => rfl
  | case2 => rfl
  | case3 c d r indexed ih =>
    have rest : ¬ HasDescent r := fun descent => none ((descent.cons d).cons c)
    rw [allTurns, if_pos indexed, ih rest]
  | case4 c d r other ih =>
    have rest : ¬ HasDescent (d :: r) := fun descent => none (descent.cons c)
    rw [allTurns, if_neg other, ih rest]
    by_cases family : sameFamily c d = true
    · have kept : ¬ isReplaced c (d :: r) = true := fun replaced =>
        none (hasDescent_of_isReplaced replaced family)
      rw [if_neg kept, if_pos family]
    · have replaced : isReplaced c (d :: r) = true := by
        apply isReplaced_of_apart
        simpa [startsWith] using family
      rw [if_pos replaced, if_neg family]

def glyphCount (t : Text) : Nat := t.countP fun c => decide (turn c < 5)

theorem glyphCount_append (t u : Text) : glyphCount (t ++ u) = glyphCount t + glyphCount u :=
  List.countP_append

theorem glyphCount_replacement (c : Char) : glyphCount (glyphReplacement c) = 0 := by
  unfold glyphCount
  rw [List.countP_eq_zero]
  intro d member
  by_cases glyph : turn c < 5
  · obtain ⟨e, r, shape, other⟩ := glyphReplacement_shape glyph
    rw [shape] at member
    simp [other d member]
  · rw [glyphReplacement_of_other glyph] at member
    rw [List.mem_singleton.1 member]
    simpa using glyph

/-- A glyph that is replaced in one pass over the given text is replaced in its turn. -/
theorem glyphCount_turn_le (c : Char) (r : Text) :
    glyphCount (if isReplaced c r then glyphReplacement c else [c]) ≤
      glyphCount (if startsWith (sameFamily c) r then [c] else glyphReplacement c) := by
  by_cases family : startsWith (sameFamily c) r = true
  · rw [if_pos family]
    split
    · rw [glyphCount_replacement]
      exact Nat.zero_le _
    · exact Nat.le_refl _
  · rw [if_neg family, if_pos (isReplaced_of_apart (by simpa using family))]

theorem glyphCount_allTurns_le (t : Text) : glyphCount (allTurns t) ≤ glyphCount (singlePass t) := by
  fun_induction singlePass t with
  | case1 => exact Nat.le_refl _
  | case2 => exact Nat.le_refl _
  | case3 c d r indexed ih =>
    rw [allTurns, if_pos indexed]
    show glyphCount ([rootMark] ++ _) ≤ glyphCount ([rootMark] ++ _)
    rw [glyphCount_append, glyphCount_append]
    omega
  | case4 c d r other ih =>
    rw [allTurns, if_neg other, glyphCount_append, glyphCount_append]
    have first := glyphCount_turn_le c (d :: r)
    have shape : startsWith (sameFamily c) (d :: r) = sameFamily c d := rfl
    rw [shape] at first
    omega

theorem sameFamily_comm (g h : Char) : sameFamily g h = sameFamily h g := by
  unfold sameFamily
  rw [Bool.and_comm, Bool.and_comm (isRaisedDigit g)]

/-- Where glyphs descend fewer of them are left. -/
theorem glyphCount_allTurns_lt (descent : HasDescent t) :
    glyphCount (allTurns t) < glyphCount (singlePass t) := by
  fun_induction singlePass t with
  | case1 => exact absurd descent not_hasDescent_nil
  | case2 c =>
    rcases hasDescent_cons.1 descent with ⟨_, _, shape, _⟩ | none
    · contradiction
    · exact absurd none not_hasDescent_nil
  | case3 c d r indexed ih =>
    have rest : HasDescent r := by
      simp only [Bool.and_eq_true, beq_iff_eq] at indexed
      obtain ⟨⟨rfl, rfl⟩, _⟩ := indexed
      rcases hasDescent_cons.1 descent with ⟨_, _, shape, family, _⟩ | behind
      · rw [← (List.cons.inj shape).1] at family
        contradiction
      · rcases hasDescent_cons.1 behind with ⟨_, _, _, _, before, _⟩ | rest
        · exact absurd before (Nat.not_lt_zero _)
        · exact rest
    have fewer := ih rest
    rw [allTurns, if_pos indexed]
    show glyphCount ([rootMark] ++ _) < glyphCount ([rootMark] ++ _)
    rw [glyphCount_append, glyphCount_append]
    omega
  | case4 c d r other ih =>
    rw [allTurns, if_neg other, glyphCount_append, glyphCount_append]
    rcases hasDescent_cons.1 descent with ⟨h, b, shape, family, before, apart⟩ | rest
    · obtain ⟨rfl, rfl⟩ := List.cons.inj shape
      have glyph : turn c < 5 := turn_of_sameFamily (sameFamily_comm c d ▸ family)
      have replaced : isReplaced c (d :: r) = true := by
        rw [isReplaced, isReplaced_of_apart apart, decide_eq_true before]
        exact Bool.or_true _
      have one : glyphCount [c] = 1 := by
        simp [glyphCount, glyph]
      have rest := glyphCount_allTurns_le (d :: r)
      rw [if_pos replaced, if_pos family, glyphCount_replacement, one]
      omega
    · have fewer := ih rest
      have first := glyphCount_turn_le c (d :: r)
      have shape : startsWith (sameFamily c) (d :: r) = sameFamily c d := rfl
      rw [shape] at first
      omega

def inverseNotations : List Text :=
  [['s', 'i', 'n', '{', '-', '1', '}'], ['c', 'o', 's', '{', '-', '1', '}'],
    ['t', 'a', 'n', '{', '-', '1', '}']]

theorem replaceInverse_of_none (none : ∀ w ∈ inverseNotations, ¬ w <:+: t) :
    replaceInverse t = t := by
  fun_induction replaceInverse t with
  | case1 r => exact absurd (List.prefix_append _ r).isInfix (none _ (.head _))
  | case2 r => exact absurd (List.prefix_append _ r).isInfix (none _ (.tail _ (.head _)))
  | case3 r => exact absurd (List.prefix_append _ r).isInfix (none _ (.tail _ (.tail _ (.head _))))
  | case4 c r _ _ _ ih =>
    rw [ih fun w member inside => none w member (inside.trans (List.suffix_cons c r).isInfix)]
  | case5 => rfl

/-- A character that no glyph is replaced by, and that is no glyph. -/
def isPlainChar (c : Char) : Bool :=
  !(turn c < 5 || c == indexMark || c == rootMark || c == '^' || c == '(' || c == ')' ||
    c == '2' || c == '3' || c == '4')

theorem glyphReplacement_not_plain (glyph : turn g < 5) :
    ∀ c ∈ glyphReplacement g, isPlainChar c = false := by
  rcases turn_cases glyph with rfl | rfl | rfl | rfl | rfl <;> decide

/-- A text with some parts replaced, by texts without plain characters. -/
inductive Rewrites : Text → Text → Prop
  | nil : Rewrites [] []
  | keep {c : Char} {t u : Text} (rest : Rewrites t u) : Rewrites (c :: t) (c :: u)
  | replace {v w t u : Text} (nonempty : w ≠ []) (other : ∀ c ∈ w, isPlainChar c = false)
    (rest : Rewrites t u) : Rewrites (v ++ t) (w ++ u)

theorem Rewrites.front (h : Rewrites t u) (plain : ∀ c ∈ w, isPlainChar c = true)
    (first : w <+: u) : w <+: t := by
  induction h generalizing w with
  | nil => exact first
  | keep rest ih =>
    cases w with
    | nil => exact List.nil_prefix
    | cons e w =>
      obtain ⟨same, after⟩ := List.cons_prefix_cons.1 first
      exact List.cons_prefix_cons.2 ⟨same, ih (fun c member => plain c (.tail _ member)) after⟩
  | @replace v w' t u nonempty other rest ih =>
    cases w with
    | nil => exact List.nil_prefix
    | cons e w =>
      obtain ⟨d, r, rfl⟩ := List.exists_cons_of_ne_nil nonempty
      have same : e = d := (List.cons_prefix_cons.1 first).1
      have head := plain e (.head _)
      rw [same, other d (.head _)] at head
      contradiction

/-- A plain word that is in the text behind the replacement was in the text before. -/
theorem Rewrites.within (h : Rewrites t u) (plain : ∀ c ∈ w, isPlainChar c = true)
    (inside : w <:+: u) : w <:+: t := by
  induction h with
  | nil => exact inside
  | @keep c t u rest ih =>
    rcases List.infix_cons_iff.1 inside with first | later
    · exact (rest.keep.front plain first).isInfix
    · exact (ih later).trans (List.suffix_cons c t).isInfix
  | @replace v w' t u nonempty other rest ih =>
    have behind : w <:+: u := by
      clear rest ih nonempty
      induction w' with
      | nil => exact inside
      | cons d w' ih =>
        refine ih (fun c member => other c (.tail _ member)) ?_
        rcases List.infix_cons_iff.1 inside with first | later
        · cases w with
          | nil => exact List.nil_infix
          | cons e w =>
            have same : e = d := (List.cons_prefix_cons.1 first).1
            have head := plain e (.head _)
            rw [same, other d (.head _)] at head
            contradiction
        · exact later
    exact (ih behind).trans (List.suffix_append v t).isInfix

theorem rewrites_turn (c : Char) (replaced : Prop) [Decidable replaced] (rest : Rewrites t u) :
    Rewrites (c :: t) ((if replaced then glyphReplacement c else [c]) ++ u) := by
  split
  · by_cases glyph : turn c < 5
    · obtain ⟨d, r, shape, _⟩ := glyphReplacement_shape glyph
      apply Rewrites.replace (v := [c]) _ (glyphReplacement_not_plain glyph) rest
      rw [shape]
      exact List.cons_ne_nil _ _
    · rw [glyphReplacement_of_other glyph]
      exact rest.keep
  · exact rest.keep

theorem rewrites_allTurns (t : Text) : Rewrites t (allTurns t) := by
  fun_induction allTurns t with
  | case1 => exact .nil
  | case2 c =>
    have alone := rewrites_turn c True .nil
    rwa [if_pos trivial, List.append_nil] at alone
  | case3 c d r indexed ih => exact .replace (v := [c, d]) (w := [rootMark]) (by simp) (by decide) ih
  | case4 c d r other ih => exact rewrites_turn c _ ih

/-- No notation of an inverse function comes about where glyphs are replaced. -/
theorem replaceGlyphs_of_none (none : ∀ w ∈ inverseNotations, ¬ w <:+: t) :
    replaceGlyphs t = allTurns t := by
  have plain : ∀ w ∈ inverseNotations, ∀ c ∈ w, isPlainChar c = true := by
    unfold inverseNotations
    simp only [List.forall_mem_cons]
    decide
  rw [replaceGlyphs_eq_allTurns]
  apply replaceInverse_of_none
  intro w member inside
  exact none w member ((rewrites_allTurns t).within (plain w member) inside)

theorem mem_allTurns {a r : Text} (family : sameFamily g h = true)
    (kept : isReplaced g (h :: r) = false) : g ∈ allTurns (a ++ g :: h :: r) := by
  generalize shape : a ++ g :: h :: r = t
  fun_induction allTurns t generalizing a with
  | case1 => exact absurd shape (by simp)
  | case2 c =>
    rcases a with _ | ⟨e, a⟩
    · exact absurd (List.cons.inj shape).2 (by simp)
    · exact absurd (List.cons.inj shape).2 (by simp)
  | case3 c d s indexed ih =>
    simp only [Bool.and_eq_true, beq_iff_eq, Bool.not_eq_true'] at indexed
    obtain ⟨⟨rfl, rfl⟩, apart⟩ := indexed
    rcases a with _ | ⟨e, _ | ⟨e', a⟩⟩
    · rw [(List.cons.inj shape).1] at family
      contradiction
    · obtain ⟨same, rest⟩ := List.cons.inj (List.cons.inj shape).2
      rw [← rest] at apart
      rw [same] at family
      have root : isRootGlyph h = true := by simpa [sameFamily, isRootGlyph, isRaisedDigit] using family
      rw [startsWith, List.head?_cons, Option.any_some, root] at apart
      contradiction
    · exact .tail _ (ih (List.cons.inj (List.cons.inj shape).2).2)
  | case4 c d s other ih =>
    rcases a with _ | ⟨e, a⟩
    · obtain ⟨rfl, same⟩ := List.cons.inj shape
      rw [← same, kept]
      exact List.mem_append_left _ (.head _)
    · exact List.mem_append_right _ (ih (List.cons.inj shape).2)

/-- No notation of an inverse function has a glyph in it. -/
theorem mem_replaceInverse (glyph : turn g < 5) (member : g ∈ t) : g ∈ replaceInverse t := by
  have behind {r : Text} (w : Text) (word : ∀ c ∈ w, turn c = 5) (member : g ∈ w ++ r) : g ∈ r := by
    rcases List.mem_append.1 member with inside | rest
    · have other := word g inside
      omega
    · exact rest
  fun_induction replaceInverse t with
  | case1 r ih =>
    apply List.mem_append_right ['a', 's', 'i', 'n']
    exact ih (behind ['s', 'i', 'n', '{', '-', '1', '}'] (by decide) member)
  | case2 r ih =>
    apply List.mem_append_right ['a', 'c', 'o', 's']
    exact ih (behind ['c', 'o', 's', '{', '-', '1', '}'] (by decide) member)
  | case3 r ih =>
    apply List.mem_append_right ['a', 't', 'a', 'n']
    exact ih (behind ['t', 'a', 'n', '{', '-', '1', '}'] (by decide) member)
  | case4 c r _ _ _ ih =>
    rcases List.mem_cons.1 member with rfl | rest
    · exact .head _
    · exact .tail _ (ih rest)
  | case5 => exact member

theorem mem_markProducts (member : g ∈ t) : g ∈ markProducts t := by
  have step (apart : Char → Char → Bool) {t : Text} (member : g ∈ t) : g ∈ insertBetween apart t := by
    have count : t.count g ≤ (insertBetween apart t).count g := count_insertBetween apart t
    rw [← List.count_pos_iff] at member ⊢
    omega
  exact step _ (step _ (step _ member))

theorem isBreak_of_turn (glyph : turn g < 5) : IsBreak g := by
  rcases turn_cases glyph with rfl | rfl | rfl | rfl | rfl <;> decide

/-- Two glyphs in a row are still in a row where they are replaced. -/
theorem glyphText_glyphs {a s b : Text} (family : sameFamily g h = true) (spaces : ∀ c ∈ s, c = ' ')
    (named : glyphText constants (a ++ g :: (s ++ h :: b)) = .ok t) :
    ∃ a' b', t = a' ++ g :: h :: b' := by
  have first : IsBreak g := isBreak_of_turn (turn_of_sameFamily (sameFamily_comm g h ▸ family))
  have second : IsBreak h := isBreak_of_turn (turn_of_sameFamily family)
  have none : glyphText constants s = .ok [] := by
    have unnamed : ∀ c ∈ s, isConstantChar c = false := fun c member => by
      rw [spaces c member]
      decide
    have blank : removeSpaces s = [] := by
      unfold removeSpaces
      rw [List.filter_eq_nil_iff]
      intro c member
      simp [spaces c member]
    unfold glyphText
    rw [replaceConstants_of_none unnamed]
    simp only [Except.map, spelledOut, blank, expandScientific, reduceSigns_nil]
  rw [glyphText_cut first, glyphText_cut second, none] at named
  obtain ⟨a', _, named⟩ := bind_eq_ok named
  obtain ⟨rest, behind, rfl⟩ := map_eq_ok named
  obtain ⟨b', _, rfl⟩ := map_eq_ok behind
  exact ⟨a', b', rfl⟩

/-- The pairs of glyphs that descend. -/
theorem descent_cases (family : sameFamily g h = true) (before : turn h < turn g) :
    (g = '∛' ∧ h = '√') ∨ (g = '∜' ∧ h = '√') ∨ (g = '∜' ∧ h = '∛') ∨ (g = '³' ∧ h = '²') := by
  rcases turn_cases (turn_of_sameFamily (sameFamily_comm g h ▸ family)) with
    rfl | rfl | rfl | rfl | rfl <;>
    rcases turn_cases (turn_of_sameFamily family) with rfl | rfl | rfl | rfl | rfl <;>
    first
    | exact absurd family (by decide)
    | exact absurd before (by decide)
    | decide

/-- Glyphs are replaced as in one pass over the given text just where no two of them descend to the
end of a row. Two glyphs in a row that do not descend are accepted in no expression, and for any two
that do there is one in which they are. -/
theorem replaceGlyphs_stacked (given : Text) :
    ((∀ w ∈ inverseNotations, ¬ w <:+: given) →
      (replaceGlyphs given = singlePass given ↔ ¬ HasDescent given)) ∧
    (∀ constants a g s h b t, sameFamily g h = true → (∀ c ∈ s, c = ' ') →
      (canonical constants (a ++ g :: (s ++ h :: b))).outcome = .ok t →
      (check t).outcome = .ok () → turn h < turn g) ∧
    ∀ g h, sameFamily g h = true → turn h < turn g → ∃ raw t, [g, h] <:+: raw ∧
      (canonical [] raw).outcome = .ok t ∧ (check t).outcome = .ok () := by
  refine ⟨?_, ?_, ?_⟩
  · intro none
    rw [replaceGlyphs_of_none none]
    constructor
    · intro same descent
      have fewer := glyphCount_allTurns_lt descent
      rw [same] at fewer
      omega
    · exact allTurns_eq_singlePass
  · intro constants a g s h b t family spaces written checked
    by_contra later
    rw [canonical_glyphText] at written
    obtain ⟨u, named, rfl⟩ := map_eq_ok written
    obtain ⟨a', b', rfl⟩ := glyphText_glyphs family spaces named
    have glyph : turn g < 5 := turn_of_sameFamily (sameFamily_comm g h ▸ family)
    have kept : isReplaced g (h :: b') = false := by
      rw [isReplaced, family, decide_eq_false later]
      rfl
    have left : g ∈ replaceGlyphs (a' ++ g :: h :: b') := by
      rw [replaceGlyphs_eq_allTurns]
      exact mem_replaceInverse glyph (mem_allTurns family kept)
    have spelled := isCanonicalChar_of_check checked g (mem_markProducts left)
    rcases turn_cases glyph with rfl | rfl | rfl | rfl | rfl <;> exact absurd spelled (by decide)
  · intro g h family before
    rcases descent_cases family before with ⟨rfl, rfl⟩ | ⟨rfl, rfl⟩ | ⟨rfl, rfl⟩ | ⟨rfl, rfl⟩
    · exact ⟨['∛', '√', '9'], ['(', '3', ')', rootMark, '(', '2', ')', rootMark, '9'],
        (List.prefix_append _ _).isInfix, by decide +kernel, by decide +kernel⟩
    · exact ⟨['∜', '√', '9'], ['(', '4', ')', rootMark, '(', '2', ')', rootMark, '9'],
        (List.prefix_append _ _).isInfix, by decide +kernel, by decide +kernel⟩
    · exact ⟨['∜', '∛', '9'], ['(', '4', ')', rootMark, '(', '3', ')', rootMark, '9'],
        (List.prefix_append _ _).isInfix, by decide +kernel, by decide +kernel⟩
    · exact ⟨['2', '³', '²'], ['2', '^', '(', '3', ')', '^', '(', '2', ')'],
        (List.suffix_cons _ _).isInfix, by decide +kernel, by decide +kernel⟩

/-- The cube root of a square root is a root of a root, though the sign of the cube root has another
one behind it; the square root of a cube root is none. -/
theorem replaceGlyphs_cubeSquare :
    replaceGlyphs ['∛', '√', '9'] ≠ singlePass ['∛', '√', '9'] ∧
      replaceGlyphs ['√', '∛', '9'] = singlePass ['√', '∛', '9'] := by
  have none (t : Text) (short : t.length < 7) : ∀ w ∈ inverseNotations, ¬ w <:+: t := by
    intro w member inside
    have bound := inside.length_le
    have length : w.length = 7 := by
      revert w
      unfold inverseNotations
      simp
    omega
  constructor
  · intro same
    refine ((replaceGlyphs_stacked _).1 (none _ (by decide))).1 same ?_
    exact ⟨[], '∛', '√', ['9'], rfl, by decide, by decide, by decide⟩
  · apply ((replaceGlyphs_stacked _).1 (none _ (by decide))).2
    rw [hasDescent_cons, hasDescent_cons, hasDescent_cons]
    rintro (⟨h, b, same, _, before, _⟩ | ⟨h, b, same, family, _⟩ | ⟨h, b, same, _⟩ | empty)
    · rw [← (List.cons.inj same).1] at before
      exact absurd before (by decide)
    · rw [← (List.cons.inj same).1] at family
      exact absurd family (by decide)
    · contradiction
    · exact not_hasDescent_nil empty

end Reckoner
