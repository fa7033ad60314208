import Reckoner.Proofs.Evaluation.Links

set_option autoImplicit false

namespace Reckoner

/-- What stands directly in front of a place in a text, as far as it matters to an operand there. -/
inductive Place
  | start
  | leading
  | operator
  | sign
  | signs
  | opened
  | other
  | swapped
deriving DecidableEq

namespace Place

def step (p : Place) (c : Char) : Place :=
  if isSign c then
    match p with
    | start => leading
    | leading | operator | other | swapped => sign
    | sign | signs | opened => signs
  else if isBinaryOnly c then operator
  else if c = openMark then opened
  else if c = '(' then start
  else other

def run (p : Place) (t : Text) : Place := t.foldl step p

def admits : Place → Bool
  | start | leading | operator | sign => true
  | signs | opened | other | swapped => false

/-- Of two places the second one admits all that the first one does, and what follows as well. -/
inductive Le : Place → Place → Prop
  | refl (p : Place) : Le p p
  | sign : Le signs sign
  | leading : Le signs leading
  | signLeading : Le Place.sign Place.leading

end Place

variable {pair : Text → Text → Prop} {p p' q : Place} {t u v w : Text} {c : Char}

/-- The second text is the first one with operands exchanged: between the first place and the last
one each piece is the same character or a pair of operands. Behind such a pair stands an operator,
if anything. -/
inductive Swapped (pair : Text → Text → Prop) : Place → Text → Text → Place → Prop
  | nil (p : Place) : Swapped pair p [] [] p
  | char {p q : Place} {c : Char} {t u : Text} (apart : p = .swapped → isOperator c = true)
    (rest : Swapped pair (p.step c) t u q) : Swapped pair p (c :: t) (c :: u) q
  | swap {p q : Place} {o o' t u : Text} (admits : p.admits = true) (h : pair o o')
    (rest : Swapped pair .swapped t u q) : Swapped pair p (o ++ t) (o' ++ u) q

theorem Place.step_ne_swapped (p : Place) (c : Char) : p.step c ≠ .swapped := by
  unfold Place.step
  split
  · cases p <;> exact Place.noConfusion
  · split
    · exact Place.noConfusion
    · split
      · exact Place.noConfusion
      · split <;> exact Place.noConfusion

theorem Place.admits_opened_sign {c : Char} (sign : isSign c = true) :
    (Place.opened.step c).admits = false := by
  unfold Place.step
  rw [if_pos sign]
  rfl

theorem Place.step_operandChar (p : Place) (h : isOperandChar c = true) : p.step c = .other := by
  have notBinary : isBinaryOnly c = false := by
    rw [Bool.eq_false_iff]
    intro binary
    simp only [isBinaryOnly, Bool.or_eq_true, beq_iff_eq] at binary
    rcases binary with ((rfl | rfl) | rfl) | rfl <;> exact absurd h (by decide)
  have apart (d : Char) (bare : isOperandChar d = false) : c ≠ d := by
    rintro rfl
    rw [h] at bare
    contradiction
  unfold Place.step
  rw [isSign_of_isOperandChar h, notBinary, if_neg Bool.false_ne_true, if_neg Bool.false_ne_true,
    if_neg (apart openMark (by decide)), if_neg (apart '(' (by decide))]

theorem Place.run_solid (h : Solid t) : Place.other.run t = .other := by
  induction t with
  | nil => rfl
  | cons c t ih =>
    change (Place.other.step c).run t = .other
    rw [Place.step_operandChar .other (h c (.head _))]
    exact ih fun d hd => h d (.tail _ hd)

theorem Place.run_row {r : Text} (h : IsRow r) (p : Place) : p.run r = .other := by
  obtain ⟨c, s, rfl, head⟩ := h.exists_cons
  change (p.step c).run s = .other
  rw [Place.step_operandChar p head]
  exact Place.run_solid fun d hd => h.2 d (.tail _ hd)

/-- A text without exchanged operands. -/
theorem Swapped.same (t : Text) (start : p ≠ .swapped) : Swapped pair p t t (p.run t) := by
  induction t generalizing p with
  | nil => exact .nil p
  | cons c t ih => exact .char (fun wrong => absurd wrong start) (ih (p.step_ne_swapped c))

theorem Swapped.append {t' u' : Text} {r : Place} (h : Swapped pair p t u q)
    (h' : Swapped pair q t' u' r) : Swapped pair p (t ++ t') (u ++ u') r := by
  induction h with
  | nil p => exact h'
  | char apart _ ih => exact .char apart (ih h')
  | swap admits h _ ih =>
    rw [List.append_assoc, List.append_assoc]
    exact .swap admits h (ih h')

theorem Place.Le.step (h : Place.Le p q) (c : Char) : Place.Le (p.step c) (q.step c) := by
  by_cases sign : isSign c = true
  · unfold Place.step
    rw [if_pos sign, if_pos sign]
    cases h with
    | refl => exact .refl _
    | sign => exact .refl _
    | leading => exact .sign
    | signLeading => exact .sign
  · unfold Place.step
    rw [if_neg sign, if_neg sign]
    exact .refl _

theorem Place.Le.admits (h : Place.Le p q) (admits : p.admits = true) : q.admits = true := by
  cases h with
  | refl => exact admits
  | signLeading => rfl
  | _ => contradiction

theorem Place.Le.swapped (h : Place.Le p q) : q = .swapped → p = .swapped := by
  rintro rfl
  cases h
  rfl

theorem Swapped.mono (h : Swapped pair p t u q) (le : Place.Le p p') :
    ∃ q', Swapped pair p' t u q' := by
  induction h generalizing p' with
  | nil p => exact ⟨p', .nil p'⟩
  | @char _ _ c _ _ apart _ ih =>
    obtain ⟨q', rest⟩ := ih (le.step c)
    exact ⟨q', .char (fun same => apart (le.swapped same)) rest⟩
  | swap admits h rest => exact ⟨_, .swap (le.admits admits) h rest⟩

/-- Two signs in a row leave a place that admits no more than one sign does. -/
theorem Place.le_combined {c d e : Char} (hc : isSign c = true) (hd : isSign d = true)
    (he : isSign e = true) (p : Place) : Place.Le ((p.step c).step d) (p.step e) := by
  unfold Place.step
  rw [if_pos hc, if_pos hd, if_pos he]
  cases p <;> first | exact .refl _ | exact .sign | exact .leading | exact .signLeading

section Signs

variable (operands : ∀ {o o'}, pair o o' → IsOperand o ∧ IsOperand o')

include operands

/-- The first characters of the two texts are the same, unless neither is a sign. -/
theorem Swapped.attachSign (h : Swapped pair (p.step c) t u q)
    (apart : p = .swapped → isOperator c = true) :
    ∃ q', Swapped pair p (Reckoner.attachSign c t) (Reckoner.attachSign c u) q' := by
  have plain {t u : Text} (h : Swapped pair (p.step c) t u q)
      (left : Reckoner.attachSign c t = c :: t) (right : Reckoner.attachSign c u = c :: u) :
      ∃ q', Swapped pair p (Reckoner.attachSign c t) (Reckoner.attachSign c u) q' := by
    rw [left, right]
    exact ⟨q, .char apart h⟩
  have unsigned {t : Text} (h : startsWith isSign t = false) :
      Reckoner.attachSign c t = c :: t := by
    cases t with
    | nil => rfl
    | cons d t =>
      have head : isSign d = false := h
      simp only [Reckoner.attachSign, head, Bool.and_false, Bool.false_eq_true, if_false]
  generalize place : p.step c = p₁ at h
  cases h with
  | nil => exact ⟨_, .char apart (.nil _)⟩
  | swap admits same rest =>
    subst place
    exact plain (.swap admits same rest) (unsigned ((operands same).1.unsigned _))
      (unsigned ((operands same).2.unsigned _))
  | @char _ _ d t u apart' rest =>
    subst place
    by_cases signs : isSign c = true ∧ isSign d = true
    · obtain ⟨q', merged⟩ := rest.mono
        (Place.le_combined signs.1 signs.2 (isSign_combineSigns c d) p)
      refine ⟨q', ?_⟩
      simp only [Reckoner.attachSign, signs.1, signs.2, Bool.and_self, if_true]
      refine .char (fun _ => ?_) merged
      unfold isOperator
      rw [isSign_combineSigns, Bool.true_or]
    · have apart'' : (isSign c && isSign d) = false := by simpa using signs
      have keeps (t : Text) : Reckoner.attachSign c (d :: t) = c :: d :: t := by
        simp only [Reckoner.attachSign, apart'', Bool.false_eq_true, if_false]
      exact plain (.char apart' rest) (keeps t) (keeps u)

theorem Swapped.reduceSigns (h : Swapped pair p t u q) :
    ∃ q', Swapped pair p (reduceSigns t) (reduceSigns u) q' := by
  induction h with
  | nil p => exact ⟨p, .nil p⟩
  | char apart _ ih =>
    obtain ⟨q', rest⟩ := ih
    exact rest.attachSign operands apart
  | @swap p _ o o' t u admits same _ ih =>
    obtain ⟨q', rest⟩ := ih
    have left := (operands same).1.reduceSigns_append [] t
    have right := (operands same).2.reduceSigns_append [] u
    rw [List.nil_append, reduceSigns_nil, List.nil_append] at left right
    rw [left, right]
    exact ⟨q', .swap admits same rest⟩

end Signs

end Reckoner
