import Mathlib.Logic.Relation
import Reckoner.Proofs.Expression.Substitution
import Reckoner.Proofs.Session.Execution
import Reckoner.Session.Basic

set_option autoImplicit false

namespace Reckoner

variable {constants : Table Text Constant} {raw raw' t u v : Text} {c : Char}

/-- The second text is the first one without a space that does not stand between two characters of
names. -/
inductive DropsSpace : Text → Text → Prop
  | intro {t u : Text} (cut : CutBetween t u) : DropsSpace (t ++ ' ' :: u) (t ++ u)

/-- The texts differ only by such spaces, which are taken out or put in one after another. -/
def SpacedAlike : Text → Text → Prop := Relation.EqvGen DropsSpace

theorem removeSpaces_space (t u : Text) : removeSpaces (t ++ ' ' :: u) = removeSpaces (t ++ u) := by
  unfold removeSpaces
  rw [List.filter_append, List.filter_append, List.filter_cons_of_neg (by decide)]

theorem canonicalOfNamed_space (t u : Text) :
    canonicalOfNamed (t ++ ' ' :: u) = canonicalOfNamed (t ++ u) := by
  unfold canonicalOfNamed
  rw [removeSpaces_space]

/-- A space stays where it is when constants are replaced, and parts no more than the cut does. -/
theorem replaceConstants_space (cut : CutBetween t u) :
    (replaceConstants constants (t ++ ' ' :: u)).map canonicalOfNamed =
      (replaceConstants constants (t ++ u)).map canonicalOfNamed := by
  have other : ∀ d ∈ [' '], isConstantChar d = false := by decide
  have before : CutBetween t ([' '] ++ u) := .inr (by simpa using other)
  have behind : CutBetween [' '] u := .inl (by simpa using other)
  rw [← List.singleton_append, replaceConstants_append before, replaceConstants_append behind,
    replaceConstants_append cut, replaceConstants_of_none other]
  cases replaceConstants constants t with
  | error m => rfl
  | ok t' =>
    cases replaceConstants constants u with
    | error m => rfl
    | ok u' => exact congrArg Except.ok (canonicalOfNamed_space t' u')

theorem DropsSpace.canonical (h : DropsSpace raw raw') :
    (canonical constants raw).outcome = (canonical constants raw').outcome := by
  obtain ⟨cut⟩ := h
  rw [canonical_outcome, canonical_outcome, replaceConstants_space cut]

theorem SpacedAlike.canonical (h : SpacedAlike raw raw') :
    (canonical constants raw).outcome = (canonical constants raw').outcome := by
  induction h with
  | rel _ _ drops => exact drops.canonical
  | refl _ => rfl
  | symm _ _ _ ih => exact ih.symm
  | trans _ _ _ _ _ first second => exact first.trans second

def afterSpace : Text → Text
  | ' ' :: t => t
  | t => t

/-- A character in front of a text in which only spaces between names are left. -/
def attachSpaced (c : Char) (t : Text) : Text :=
  if c = ' ' then if startsWith isConstantChar t then ' ' :: t else t
  else if isConstantChar c then c :: t
  else c :: afterSpace t

/-- The text with one space where there are some between two characters of names, and without any other
space. -/
def tightened (t : Text) : Text := afterSpace (t.foldr attachSpaced [])

theorem startsWith_attachSpaced (c : Char) (t : Text)
    (other : startsWith isConstantChar (c :: t) = false) :
    startsWith isConstantChar (attachSpaced c (t.foldr attachSpaced [])) = false := by
  have notName : isConstantChar c = false := other
  unfold attachSpaced
  split
  · split
    · rfl
    next no => simpa using no
  · rw [notName]
    exact notName

/-- What stands behind a space that is no part of a name stays as it is without the space. -/
theorem foldr_space (stop : startsWith isConstantChar u = false) :
    (' ' :: u).foldr attachSpaced [] = u.foldr attachSpaced [] := by
  have none : startsWith isConstantChar (u.foldr attachSpaced []) = false := by
    cases u with
    | nil => rfl
    | cons c u => exact startsWith_attachSpaced c u stop
  rw [List.foldr_cons, attachSpaced, if_pos rfl, none]
  rfl

theorem afterSpace_of_name (name : startsWith isConstantChar t = true) : afterSpace t = t := by
  unfold afterSpace
  split
  · contradiction
  · rfl

/-- At the beginning a space goes. -/
theorem afterSpace_space (u : Text) :
    afterSpace ((' ' :: u).foldr attachSpaced []) = afterSpace (u.foldr attachSpaced []) := by
  rw [List.foldr_cons, attachSpaced, if_pos rfl]
  split
  next name => exact (afterSpace_of_name name).symm
  next => rfl

/-- Behind a character of no name a space goes. -/
theorem attachSpaced_space (other : isConstantChar c = false) (u : Text) :
    (c :: ' ' :: u).foldr attachSpaced [] = (c :: u).foldr attachSpaced [] := by
  by_cases space : c = ' '
  · subst space
    exact foldr_space rfl
  · have kept (t : Text) : attachSpaced c t = c :: afterSpace t := by
      rw [attachSpaced, if_neg space, other, if_neg Bool.false_ne_true]
    rw [List.foldr_cons, kept, afterSpace_space, List.foldr_cons, kept]

theorem DropsSpace.tightened (h : DropsSpace t u) : tightened t = tightened u := by
  obtain ⟨last | next⟩ := h
  next t u =>
    rcases List.eq_nil_or_concat t with rfl | ⟨t, c, rfl⟩
    · exact afterSpace_space u
    · rw [List.concat_eq_append] at last ⊢
      have behind := attachSpaced_space (last c List.getLast?_concat) u
      simp only [Reckoner.tightened, List.append_assoc, List.singleton_append]
      rw [List.foldr_append, behind, ← List.foldr_append]
  next t u =>
    have stop : startsWith isConstantChar u = false := by
      cases u with
      | nil => rfl
      | cons c u => exact next c rfl
    unfold Reckoner.tightened
    rw [List.foldr_append, foldr_space stop, ← List.foldr_append]

/-- One space less in front of a text that does not begin with a name. -/
theorem spacedAlike_afterSpace (other : ∀ c ∈ v.getLast?, isConstantChar c = false) (t : Text) :
    SpacedAlike (v ++ t) (v ++ afterSpace t) := by
  unfold afterSpace
  split
  next u => exact .rel _ _ (.intro (.inl other))
  next => exact .refl _

theorem spacedAlike_attachSpaced (v : Text) (c : Char) (t : Text) :
    SpacedAlike (v ++ c :: t) (v ++ attachSpaced c t) := by
  unfold attachSpaced
  split
  next space =>
    subst space
    split
    next => exact .refl _
    next no =>
      refine .rel _ _ (.intro (.inr fun d head => ?_))
      simpa [startsWith, Option.mem_def.1 head] using no
  next =>
    split
    next => exact .refl _
    next other =>
      have last : ∀ d ∈ (v ++ [c]).getLast?, isConstantChar d = false := by
        intro d final
        rw [List.getLast?_concat] at final
        cases final
        simpa using other
      have alike := spacedAlike_afterSpace last t
      rwa [List.append_assoc, List.append_assoc] at alike

/-- Taking out one space after another leaves the tightened text. -/
theorem spacedAlike_tightened (t : Text) : SpacedAlike t (Reckoner.tightened t) := by
  have behind (t v : Text) : SpacedAlike (v ++ t) (v ++ t.foldr attachSpaced []) := by
    induction t generalizing v with
    | nil => exact .refl _
    | cons c t ih =>
      have rest := ih (v ++ [c])
      rw [List.append_assoc, List.append_assoc] at rest
      exact .trans _ _ _ rest (spacedAlike_attachSpaced v c _)
  exact .trans _ _ _ (behind t []) (spacedAlike_afterSpace (v := []) nofun _)

/-- Two texts differ only by spaces that do not stand between two characters of names just when they
are the same with one space between two such characters, where there are some, and no other. -/
theorem spacedAlike_iff : SpacedAlike t u ↔ tightened t = tightened u := by
  constructor
  · intro alike
    induction alike with
    | rel _ _ drops => exact drops.tightened
    | refl _ => rfl
    | symm _ _ _ ih => exact ih.symm
    | trans _ _ _ _ _ first second => exact first.trans second
  · intro same
    have alike := spacedAlike_tightened t
    rw [same] at alike
    exact .trans _ _ _ alike (.symm _ _ (spacedAlike_tightened u))

/-- Of two spaces between two letters either one can go, and the other one stays. -/
example : tightened ['p', ' ', ' ', 'i', ' ', '+', ' ', '1'] = ['p', ' ', 'i', '+', '1'] := by decide

/-- Canonical forms that are the same pass the check or not, whatever the expressions are. -/
theorem Setup.checked_alike (setup : Setup)
    (same : (canonical setup.constants raw).outcome = (canonical setup.constants raw').outcome) :
    (∃ t, (setup.checked raw).outcome = .ok t ∧ (setup.checked raw').outcome = .ok t) ∨
    (∃ f : Fault, (setup.checked raw).outcome = .error (.fault (f.report (some raw))) ∧
      (setup.checked raw').outcome = .error (.fault (f.report (some raw')))) ∨
    ∃ m, (setup.checked raw).outcome = .error (.mishap m) ∧
      (setup.checked raw').outcome = .error (.mishap m) := by
  rw [outcome_checked, outcome_checked, same]
  cases (canonical setup.constants raw').outcome with
  | error m => exact .inr (.inr ⟨m, rfl, rfl⟩)
  | ok t =>
    simp only [Except.mapError, Except.bind]
    cases (check t).outcome with
    | error f => exact .inr (.inl ⟨f, rfl, rfl⟩)
    | ok _ => exact .inl ⟨t, rfl, rfl⟩

/-- An execution has its value, or its fault, whatever the expression of the canonical form is. -/
theorem Setup.execute_alike (setup : Setup) (bindings : Bindings) (raw raw' t : Text) :
    (∃ x, (setup.execute bindings raw t).outcome = .ok x ∧
      (setup.execute bindings raw' t).outcome = .ok x) ∨
    ∃ f : Fault, (setup.execute bindings raw t).outcome = .error (f.report (some raw)) ∧
      (setup.execute bindings raw' t).outcome = .error (f.report (some raw')) := by
  unfold execute
  rw [Traced.outcome_handle, Traced.outcome_handle]
  cases (solveExpression ⟨bindings, setup.angles⟩ t).outcome with
  | ok x => exact .inl ⟨x, rfl, rfl⟩
  | error e =>
    cases e with
    | fault f => exact .inr ⟨f, rfl, rfl⟩
    | mishap m => exact .inr ⟨m.asFault, rfl, rfl⟩

theorem Session.check_alike (session : Session)
    (same : (canonical session.setup.constants raw).outcome =
      (canonical session.setup.constants raw').outcome) :
    (session.check raw).outcome = (session.check raw').outcome := by
  unfold Session.check
  rcases session.setup.checked_alike same with ⟨t, passed, passed'⟩ | ⟨f, failed, failed'⟩ |
    ⟨m, failed, failed'⟩
  · simp only [passed, passed']
  · simp only [failed, failed']
  · simp only [failed, failed']

theorem Session.solve_alike_of_canonical (session : Session) (bindings : Bindings)
    (same : (canonical session.setup.constants raw).outcome =
      (canonical session.setup.constants raw').outcome) :
    (session.solve bindings raw).outcome = (session.solve bindings raw').outcome := by
  unfold Session.solve Setup.evaluate
  rcases session.setup.checked_alike same with ⟨t, passed, passed'⟩ | ⟨f, failed, failed'⟩ |
    ⟨m, failed, failed'⟩
  · simp only [passed, passed']
    rcases session.setup.execute_alike bindings raw raw' t with ⟨x, value, value'⟩ | ⟨f, failed, failed'⟩
    · simp only [value, value']
      cases Display.round session.setup.style.places x <;> rfl
    · simp only [failed, failed']
  · simp only [failed, failed']
  · simp only [failed, failed']

/-- A space that does not stand between two characters of names changes nothing in the canonical form,
whatever else stands beside it. Expressions that differ only by such spaces have the same canonical
form, pass the check or not, and have the same value. -/
theorem Session.spaces_idle :
    (∀ constants t u, CutBetween t u →
      (canonical constants (t ++ ' ' :: u)).outcome = (canonical constants (t ++ u)).outcome) ∧
    ∀ raw raw', SpacedAlike raw raw' →
      (∀ constants, (canonical constants raw).outcome = (canonical constants raw').outcome) ∧
      ∀ session : Session, (session.check raw).outcome = (session.check raw').outcome ∧
        ∀ bindings, (session.solve bindings raw).outcome = (session.solve bindings raw').outcome := by
  refine ⟨fun constants t u cut => (DropsSpace.intro cut).canonical, fun raw raw' alike => ?_⟩
  exact ⟨fun constants => alike.canonical, fun session =>
    ⟨session.check_alike alike.canonical, fun bindings =>
      session.solve_alike_of_canonical bindings alike.canonical⟩⟩

/-- A constant behind a space, and a numeral with spaces in it. -/
theorem Session.spaces_idle_sample :
    (canonical Constant.builtin ['2', ' ', 'p', 'i']).outcome =
      (canonical Constant.builtin ['2', 'p', 'i']).outcome ∧
    ((Session.start Setup.standard).solve [] [' ', '2', ' ', 'E', ' ', ' ', '3', ' ']).outcome =
      ((Session.start Setup.standard).solve [] ['2', 'E', '3']).outcome := by
  obtain ⟨idle, same⟩ := Session.spaces_idle
  have alike : SpacedAlike [' ', '2', ' ', 'E', ' ', ' ', '3', ' '] ['2', 'E', '3'] := by
    rw [spacedAlike_iff]
    decide
  have cut : CutBetween ['2'] ['p', 'i'] := by
    refine .inl ?_
    rintro c ⟨⟩
    decide
  refine ⟨idle Constant.builtin ['2'] ['p', 'i'] cut, ?_⟩
  exact ((same _ _ alike).2 (Session.start Setup.standard)).2 []

end Reckoner
