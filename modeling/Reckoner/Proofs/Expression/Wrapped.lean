import Reckoner.Proofs.Expression.Cut

set_option autoImplicit false

namespace Reckoner

variable {constants : Table Text Constant} {f g : Text → Text} {c : Char}
  {t t' u raw before part after : Text}

def wrapped (t : Text) : Text := '(' :: (t ++ [')'])

/-- A step that keeps a parenthesis at either end of a text and rewrites the rest on its own. -/
structure KeepsWrapping (f : Text → Text) : Prop where
  opened : ∀ t, f ('(' :: t) = '(' :: f t
  closed : ∀ t, f (t ++ [')']) = f t ++ [')']

theorem KeepsWrapping.comp (hf : KeepsWrapping f) (hg : KeepsWrapping g) :
    KeepsWrapping fun t => f (g t) where
  opened t := by rw [hg.opened, hf.opened]
  closed t := by rw [hg.closed, hf.closed]

theorem KeepsWrapping.wrapped (h : KeepsWrapping f) (t : Text) :
    f (wrapped t) = Reckoner.wrapped (f t) := by
  unfold Reckoner.wrapped
  rw [h.opened, h.closed]

/-- What rewrites both sides of a parenthesis on their own keeps one at either end. -/
theorem keepsWrapping_of_cut (nil : f [] = [])
    (cut : ∀ c, c = '(' ∨ c = ')' → ∀ t u, f (t ++ c :: u) = f t ++ c :: f u) : KeepsWrapping f where
  opened t := by
    have opened := cut '(' (.inl rfl) [] t
    rwa [nil] at opened
  closed t := by
    have closed := cut ')' (.inr rfl) t []
    rwa [nil] at closed

theorem isBreak_of_parenthesis (parenthesis : c = '(' ∨ c = ')') : IsBreak c := by
  rcases parenthesis with rfl | rfl <;> decide

theorem keepsWrapping_removeSpaces : KeepsWrapping removeSpaces :=
  keepsWrapping_of_cut rfl fun _ cut => removeSpaces_cut (isBreak_of_parenthesis cut)

theorem keepsWrapping_expandScientific : KeepsWrapping expandScientific :=
  keepsWrapping_of_cut (by rw [expandScientific]) fun _ cut =>
    expandScientific_cut (isBreak_of_parenthesis cut)

theorem keepsWrapping_reduceSigns : KeepsWrapping reduceSigns :=
  keepsWrapping_of_cut rfl fun _ cut =>
    reduceSigns_append_cons (isBreak_of_parenthesis cut).unsigned

theorem keepsWrapping_replaceGlyphs : KeepsWrapping replaceGlyphs := by
  refine keepsWrapping_of_cut replaceGlyphs_nil fun c parenthesis => replaceGlyphs_cut ?_
  rcases parenthesis with rfl | rfl <;> decide

theorem keepsWrapping_insertBetween {apart : Char → Char → Bool}
    (opening : ∀ c, apart '(' c = false) (closing : ∀ c, apart c ')' = false) :
    KeepsWrapping (insertBetween apart) where
  opened t := by
    have cut : insertBetween apart (['('] ++ t) = insertBetween apart ['('] ++ insertBetween apart t :=
      insertBetween_append fun a last b _ => by
        cases last
        exact opening b
    exact cut
  closed t := by
    apply insertBetween_append
    intro a _ b head
    cases head
    exact closing a

theorem keepsWrapping_markProducts : KeepsWrapping markProducts := by
  have digit : ('(').isDigit = false := by decide
  have digit' : (')').isDigit = false := by decide
  have letter : (')').isAlpha = false := by decide
  have groups : KeepsWrapping (insertBetween isGroupPair) :=
    keepsWrapping_insertBetween (fun _ => rfl) (by simp [isGroupPair])
  have numberFirst : KeepsWrapping (insertBetween isNumberFirst) :=
    keepsWrapping_insertBetween (by simp [isNumberFirst, digit]) (by simp [isNumberFirst, letter])
  have numberLast : KeepsWrapping (insertBetween isNumberLast) :=
    keepsWrapping_insertBetween (fun _ => rfl) (by simp [isNumberLast, digit'])
  exact numberLast.comp (numberFirst.comp groups)

theorem keepsWrapping_canonicalOfNamed : KeepsWrapping canonicalOfNamed :=
  keepsWrapping_markProducts.comp (keepsWrapping_replaceGlyphs.comp
    (keepsWrapping_reduceSigns.comp (keepsWrapping_expandScientific.comp
      keepsWrapping_removeSpaces)))

theorem replaceConstants_wrapped (t : Text) :
    replaceConstants constants (wrapped t) = (replaceConstants constants t).map wrapped := by
  have opening : ∀ c ∈ ['('], isConstantChar c = false := by decide
  have closing : ∀ c ∈ [')'], isConstantChar c = false := by decide
  have first : CutBetween ['('] (t ++ [')']) := .inl (by simpa using opening)
  have last : CutBetween t [')'] := .inr (by simpa using closing)
  unfold wrapped
  rw [← List.singleton_append, replaceConstants_append first, replaceConstants_append last,
    replaceConstants_of_none opening, replaceConstants_of_none closing]
  cases replaceConstants constants t <;> rfl

/-- The canonical form of an expression in parentheses is that of the expression, in parentheses. -/
theorem canonical_wrapped (raw : Text) : (canonical constants (wrapped raw)).outcome =
    (canonical constants raw).outcome.map wrapped := by
  rw [canonical_outcome, canonical_outcome, replaceConstants_wrapped]
  cases replaceConstants constants raw with
  | error m => rfl
  | ok t => exact congrArg Except.ok (keepsWrapping_canonicalOfNamed.wrapped t)

theorem Accepted.balanced (h : Accepted t) : Balanced t :=
  ((balanced_or_closes (openAtEnd_of_check h.checked)).resolve_right nofun).2

theorem PointsApart.snoc {c : Char} (h : PointsApart t) (other : c ≠ '.') :
    PointsApart (t ++ [c]) := by
  intro u v w shape
  rcases List.eq_nil_or_concat w with rfl | ⟨w, d, rfl⟩
  · have parts : t ++ [c] = (u ++ '.' :: v) ++ ['.'] := by simpa using shape
    exact absurd (List.cons.inj (List.append_inj' parts rfl).2).1 other
  · have parts : t ++ [c] = (u ++ '.' :: (v ++ '.' :: w)) ++ [d] := by simpa using shape
    exact h u v w (List.append_inj' parts rfl).1

theorem Accepted.wrapped (h : Accepted t) : Accepted (wrapped t) := by
  obtain ⟨_, chained, points⟩ := accepted_iff.1 h
  have points' : PointsApart (['('] ++ (t ++ [')'])) := (points.snoc (by decide)).append (by decide)
  exact accepted_iff.2 ⟨(Balanced.group h.balanced .nil).closed 0 0, chained.group, points'⟩

theorem PointsApart.insert {c : Char} (h : PointsApart (t ++ u)) (other : c ≠ '.') :
    PointsApart (t ++ c :: u) := by
  intro v w x shape
  rcases List.append_eq_append_iff.1 shape with ⟨a, rfl, rest⟩ | ⟨a, rfl, rest⟩
  · rcases a with _ | ⟨d, a⟩
    · exact absurd (List.cons.inj rest).1 other
    · have behind : u = a ++ '.' :: (w ++ '.' :: x) := (List.cons.inj rest).2
      exact h (t ++ a) w x (by rw [behind, List.append_assoc])
  · rcases a with _ | ⟨d, a⟩
    · exact absurd (List.cons.inj rest).1.symm other
    obtain ⟨rfl, behind⟩ := List.cons.inj rest
    have shape' : w ++ '.' :: x = a ++ c :: u := behind
    rcases List.append_eq_append_iff.1 shape' with ⟨b, rfl, last⟩ | ⟨b, rfl, last⟩
    · rcases b with _ | ⟨d, b⟩
      · exact absurd (List.cons.inj last).1.symm other
      · obtain ⟨rfl, _⟩ := List.cons.inj last
        exact h v w (b ++ u) (by simp)
    · rcases b with _ | ⟨d, b⟩
      · exact absurd (List.cons.inj last).1 other
      · obtain ⟨rfl, ends⟩ := List.cons.inj last
        have tail : u = b ++ '.' :: x := ends
        obtain ⟨e, member, operator⟩ := h v (a ++ b) x (by rw [tail]; simp)
        refine ⟨e, ?_, operator⟩
        rcases List.mem_append.1 member with front | back
        · exact List.mem_append_left _ front
        · exact List.mem_append_right _ (.tail _ back)

theorem follows_group (leads : c = '(' ∨ isOperator c = true) : follows c '(' = true := by
  rcases leads with rfl | operator
  · rfl
  · obtain ⟨o, rfl⟩ := isOperator_iff.1 operator
    cases o <;> rfl

theorem follows_behind_group (leaves : c = ')' ∨ isOperator c = true) : follows ')' c = true := by
  rcases leaves with rfl | operator
  · rfl
  · obtain ⟨o, rfl⟩ := isOperator_iff.1 operator
    cases o <;> rfl

/-- A part of an accepted expression that is accepted itself can stand in parentheses where an operand
can. -/
theorem Accepted.parenthesized (accepted : Accepted (before ++ (part ++ after)))
    (balanced : Balanced part) (chained : Chained part) (delimits : Delimits before after) :
    Accepted (before ++ ('(' :: (part ++ [')']) ++ after)) := by
  obtain ⟨closed, chain, points⟩ := accepted_iff.1 accepted
  refine accepted_iff.2 ⟨?_, ?_, ?_⟩
  · obtain ⟨depth, position, front, rest⟩ := openAtEnd_append closed
    obtain ⟨position', back⟩ := balanced.openAtEnd rest
    have group : Balanced ('(' :: (part ++ [')'])) := .group balanced .nil
    rw [openAtEnd_append_of_ok front, openAtEnd_append_of_ok (group.closed _ _)]
    exact openAtEnd_position back _
  · have whole : '(' :: (before ++ ('(' :: (part ++ [')']) ++ after) ++ [')']) =
        '(' :: before ++ (['('] ++ (part ++ [')']) ++ (after ++ [')'])) := by simp
    have parts : '(' :: (before ++ (part ++ after) ++ [')']) =
        '(' :: before ++ (part ++ (after ++ [')'])) := by simp
    unfold Chained at chain ⊢
    rw [parts] at chain
    rw [whole]
    refine List.isChain_append.2 ⟨chain.left_of_append, List.isChain_append.2
      ⟨chained, chain.right_of_append.right_of_append, fun a last b head => ?_⟩, fun a last b head => ?_⟩
    · rw [← List.append_assoc, List.getLast?_concat] at last
      cases last
      refine follows_behind_group ?_
      cases after with
      | nil =>
        cases head
        exact .inl rfl
      | cons d after => exact delimits.after b head
    · cases head
      refine follows_group ?_
      rw [List.getLast?_cons] at last
      cases final : before.getLast? with
      | none =>
        rw [final] at last
        cases last
        exact .inl rfl
      | some d =>
        rw [final] at last
        cases last
        exact delimits.before d final
  · have first : PointsApart (before ++ '(' :: (part ++ after)) := points.insert (by decide)
    have regrouped : before ++ '(' :: (part ++ after) = (before ++ '(' :: part) ++ after := by simp
    rw [regrouped] at first
    have second := first.insert (c := ')') (by decide)
    simpa using second

end Reckoner
