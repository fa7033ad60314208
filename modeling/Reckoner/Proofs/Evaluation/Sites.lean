import Reckoner.Proofs.Evaluation.Quiet

set_option autoImplicit false

/- Marks in a segment. They stand in pairs, each around one signed row, and a row in marks is no part of a
name outside of them until they are dropped. So a segment is read character by character, with the marks
and the name before each place; which names can stand next to a mark or a number differs with what has
been solved. -/
namespace Reckoner

open Double

/-- Marks stand in pairs only, none in another one, and each pair is around a row that can have one sign
in front. -/
inductive WellMarked : Text → Prop
  | nil : WellMarked []
  | char {c : Char} {t : Text} (unopened : c ≠ openMark) (unclosed : c ≠ closeMark)
    (rest : WellMarked t) : WellMarked (c :: t)
  | pair {lead r t : Text} (sign : IsLead lead) (row : IsRow r) (rest : WellMarked t) :
    WellMarked (openMark :: (lead ++ (r ++ closeMark :: t)))

/-- What stands right before a name: nothing of the operand that it is in, the value of a group in
marks, or a number or an argument in marks. -/
inductive Ahead where
  | nothing
  | group
  | argument

/-- What stands right behind marks, which are those of an argument if they are called. -/
def Ahead.closed (called : Bool) : Ahead := if called then argument else group

/-- What stands right before a place in a segment. Marks are called if a name stands before them. -/
inductive Site where
  | outside (ahead : Ahead) (name : Text)
  | opened (called signed : Bool)
  | inside (called : Bool) (name : Text)

namespace Site

open Ahead

/-- The name that ends at the place. -/
def name : Site → Text
  | outside _ name | inside _ name => name
  | opened _ _ => []

/-- Which names can stand right before a closing mark, before a number outside of marks, and before an
opening mark. -/
structure Rules where
  last : Text → Prop
  number : Text → Prop
  call : Text → Prop

/-- One character further in a segment. -/
inductive Step (rules : Rules) : Site → Char → Site → Prop
  | letter {ahead : Ahead} {name : Text} {c : Char} (h : c.isAlpha = true) :
    Step rules (outside ahead name) c (outside ahead (name ++ [c]))
  | digit {ahead : Ahead} {name : Text} {c : Char} (h : isArgumentChar c = true)
    (fits : rules.number name) : Step rules (outside ahead name) c (outside argument [])
  | operator {ahead : Ahead} {name : Text} {c : Char} (h : isOperator c = true) :
    Step rules (outside ahead name) c (outside nothing [])
  | enter : Step rules (outside nothing []) openMark (opened false false)
  | call {ahead : Ahead} {name : Text} (other : ahead ≠ argument) (fits : rules.call name) :
    Step rules (outside ahead name) openMark (opened true false)
  | sign {called : Bool} {c : Char} (h : isSign c = true) :
    Step rules (opened called false) c (opened called true)
  | first {called signed : Bool} {c : Char} (h : isOperandChar c = true) :
    Step rules (opened called signed) c (inside called (firstName c))
  | goOn {called : Bool} {name : Text} {c : Char} (h : c.isAlpha = true) :
    Step rules (inside called name) c (inside called (name ++ [c]))
  | count {called : Bool} {name : Text} {c : Char} (h : isArgumentChar c = true)
    (other : Function.ofName? name = none) : Step rules (inside called name) c (inside called [])
  | leave {called : Bool} {name : Text} (fits : rules.last name) :
    Step rules (inside called name) closeMark (outside (closed called) [])

inductive Way (rules : Rules) : Site → Text → Site → Prop
  | nil (p : Site) : Way rules p [] p
  | cons {p q r : Site} {c : Char} {t : Text} (step : Step rules p c q) (rest : Way rules q t r) :
    Way rules p (c :: t) r

/-- All names can stand everywhere. -/
def Rules.any : Rules := ⟨fun _ => True, fun _ => True, fun _ => True⟩

/-- Of a segment with its calls: only functions stand in front of marks. -/
def Rules.drafted : Rules :=
  ⟨fun _ => True, fun _ => True, fun x => (Function.ofName? x).isSome = true⟩

/-- Of a segment without calls: no function ends in marks, no name stands in front of marks, and the
name of infinity is part of each name with a number behind it. -/
def Rules.solved : Rules :=
  ⟨fun x => Function.ofName? x = none, fun x => x = [] ∨ 'I' ∈ x, fun _ => False⟩

/-- From the place to the end of a segment, where no mark is open. -/
def Admits (rules : Rules) (p : Site) (t : Text) : Prop :=
  ∃ ahead name, Way rules p t (outside ahead name)

/-- What one set of rules admits, the other one does. -/
structure Rules.Le (rules rules' : Rules) : Prop where
  last : ∀ x, rules.last x → rules'.last x
  number : ∀ x, rules.number x → rules'.number x
  call : ∀ x, rules.call x → rules'.call x

variable {rules rules' : Rules} {p q q' : Site} {t u v x name before after : Text} {c d : Char}
  {ahead ahead' : Ahead} {called : Bool} {rank : Rank} {op : Operation} {y : Float}

theorem Rules.le_any (rules : Rules) : rules.Le any :=
  ⟨fun _ _ => trivial, fun _ _ => trivial, fun _ _ => trivial⟩

theorem way_append : Way rules p (t ++ u) q ↔ ∃ m, Way rules p t m ∧ Way rules m u q := by
  induction t generalizing p with
  | nil =>
    constructor
    · exact fun way => ⟨p, .nil p, way⟩
    · rintro ⟨_, ⟨⟩, way⟩
      exact way
  | cons c t ih =>
    constructor
    · rintro (_ | ⟨step, rest⟩)
      obtain ⟨m, first, last⟩ := ih.1 rest
      exact ⟨m, .cons step first, last⟩
    · rintro ⟨m, _ | ⟨step, rest⟩, last⟩
      exact .cons step (ih.2 ⟨m, rest, last⟩)

theorem way_cons : Way rules p (c :: t) q ↔ ∃ m, Step rules p c m ∧ Way rules m t q := by
  constructor
  · rintro (_ | ⟨step, rest⟩)
    exact ⟨_, step, rest⟩
  · rintro ⟨_, step, rest⟩
    exact .cons step rest

theorem Way.append (way : Way rules p t q) (rest : Way rules q u q') : Way rules p (t ++ u) q' :=
  way_append.2 ⟨q, way, rest⟩

theorem admits_append : Admits rules p (t ++ u) ↔ ∃ m, Way rules p t m ∧ Admits rules m u := by
  constructor
  · rintro ⟨ahead, name, way⟩
    obtain ⟨m, first, last⟩ := way_append.1 way
    exact ⟨m, first, ahead, name, last⟩
  · rintro ⟨m, first, ahead, name, last⟩
    exact ⟨ahead, name, first.append last⟩

theorem admits_cons : Admits rules p (c :: t) ↔ ∃ m, Step rules p c m ∧ Admits rules m t := by
  constructor
  · rintro ⟨ahead, name, way⟩
    obtain ⟨m, step, rest⟩ := way_cons.1 way
    exact ⟨m, step, ahead, name, rest⟩
  · rintro ⟨m, step, ahead, name, rest⟩
    exact ⟨ahead, name, .cons step rest⟩

theorem admits_nil (rules : Rules) (ahead : Ahead) (name : Text) :
    Admits rules (outside ahead name) [] :=
  ⟨ahead, name, .nil _⟩

theorem Way.last (way : Way rules p (t ++ [c]) q) : ∃ m, Way rules p t m ∧ Step rules m c q := by
  obtain ⟨m, first, last⟩ := way_append.1 way
  obtain ⟨_, step, ⟨⟩⟩ := way_cons.1 last
  exact ⟨m, first, step⟩

theorem Step.mono (step : Step rules p c q) (le : rules.Le rules') : Step rules' p c q := by
  cases step with
  | letter h => exact .letter h
  | digit h fits => exact .digit h (le.number _ fits)
  | operator h => exact .operator h
  | enter => exact .enter
  | call other fits => exact .call other (le.call _ fits)
  | sign h => exact .sign h
  | first h => exact .first h
  | goOn h => exact .goOn h
  | count h other => exact .count h other
  | leave fits => exact .leave (le.last _ fits)

theorem Way.mono (way : Way rules p t q) (le : rules.Le rules') : Way rules' p t q := by
  induction way with
  | nil p => exact .nil p
  | cons step _ ih => exact .cons (step.mono le) ih

theorem Admits.mono (h : Admits rules p t) (le : rules.Le rules') : Admits rules' p t := by
  obtain ⟨ahead, name, way⟩ := h
  exact ⟨ahead, name, way.mono le⟩

/-- What has to follow at the place for the marks to be well formed. -/
def Awaits : Site → Text → Prop
  | outside _ _, t => WellMarked t
  | opened _ signed, t => ∃ lead r u, t = lead ++ (r ++ closeMark :: u) ∧ IsLead lead ∧
    (signed = true → lead = []) ∧ IsRow r ∧ WellMarked u
  | inside _ _, t => ∃ r u, t = r ++ closeMark :: u ∧ Solid r ∧ WellMarked u

theorem awaits_inside (operand : isOperandChar c = true) (rest : (inside called x).Awaits t) :
    (inside called name).Awaits (c :: t) := by
  obtain ⟨r, u, rfl, solid, rest⟩ := rest
  exact ⟨c :: r, u, rfl, List.forall_mem_cons.2 ⟨operand, solid⟩, rest⟩

theorem Step.awaits (step : Step rules p c q) (rest : q.Awaits t) : p.Awaits (c :: t) := by
  have outer (unopened : c ≠ openMark) (unclosed : c ≠ closeMark) (rest : WellMarked t) :
      WellMarked (c :: t) := .char unopened unclosed rest
  have operand (h : isOperandChar c = true) : c ≠ openMark ∧ c ≠ closeMark :=
    ⟨by rintro rfl; exact absurd h (by decide), by rintro rfl; exact absurd h (by decide)⟩
  cases step with
  | letter h =>
    have other := operand (isOperandChar_of_isAlpha h)
    exact outer other.1 other.2 rest
  | digit h _ =>
    have other := operand (isOperandChar_of_isArgumentChar h)
    exact outer other.1 other.2 rest
  | operator h =>
    exact outer (by rintro rfl; exact absurd h (by decide)) (by rintro rfl; exact absurd h (by decide))
      rest
  | enter | call _ _ =>
    obtain ⟨lead, r, u, rfl, sign, _, row, rest⟩ := rest
    exact .pair sign row rest
  | sign h =>
    obtain ⟨lead, r, u, rfl, _, none, row, rest⟩ := rest
    obtain rfl := none rfl
    exact ⟨[c], r, u, rfl, isLead_of_isSign h, Bool.noConfusion, row, rest⟩
  | first h =>
    obtain ⟨r, u, rfl, solid, rest⟩ := rest
    exact ⟨[], c :: r, u, rfl, isLead_nil, fun _ => rfl,
      ⟨List.cons_ne_nil c r, List.forall_mem_cons.2 ⟨h, solid⟩⟩, rest⟩
  | goOn h => exact awaits_inside (isOperandChar_of_isAlpha h) rest
  | count h _ => exact awaits_inside (isOperandChar_of_isArgumentChar h) rest
  | leave _ => exact ⟨[], t, rfl, List.forall_mem_nil _, rest⟩

/-- Whatever the rules are, the marks are well formed in what they admit. -/
theorem Admits.awaits (h : Admits rules p t) : p.Awaits t := by
  obtain ⟨ahead, name, way⟩ := h
  induction t generalizing p with
  | nil =>
    cases way
    exact WellMarked.nil
  | cons c t ih =>
    obtain ⟨m, step, rest⟩ := way_cons.1 way
    exact step.awaits (ih rest)

theorem Step.of_sign (step : Step rules p c q) (h : isSign c = true) :
    (∃ ahead name, p = outside ahead name ∧ q = outside nothing []) ∨
      ∃ called, p = opened called false ∧ q = opened called true := by
  have bare := not_isOperandChar_of_isSign h
  cases step with
  | letter letter | goOn letter =>
    rw [isOperandChar_of_isAlpha letter] at bare
    contradiction
  | digit digit _ | count digit _ =>
    rw [isOperandChar_of_isArgumentChar digit] at bare
    contradiction
  | first operand =>
    rw [operand] at bare
    contradiction
  | operator _ => exact .inl ⟨_, _, rfl, rfl⟩
  | sign _ => exact .inr ⟨_, rfl, rfl⟩
  | enter | call _ _ | leave _ => exact absurd h (by decide)

/-- Two signs lead where one does. -/
theorem Way.attachSign (step : Step rules p c q) (way : Way rules q t q') :
    Way rules p (attachSign c t) q' := by
  cases way with
  | nil => exact .cons step (.nil _)
  | @cons _ m _ d t next rest =>
    by_cases signs : isSign c = true ∧ isSign d = true
    · obtain ⟨sign, sign'⟩ := signs
      rw [attachSign_of_signs sign sign']
      rcases step.of_sign sign with ⟨_, _, rfl, rfl⟩ | ⟨_, rfl, rfl⟩
      · rcases next.of_sign sign' with ⟨_, _, _, rfl⟩ | ⟨_, same, _⟩
        · refine .cons (.operator ?_) rest
          rw [isOperator, isSign_combineSigns, Bool.true_or]
        · cases same
      · rcases next.of_sign sign' with ⟨_, _, same, _⟩ | ⟨_, same, _⟩ <;> cases same
    · rw [attachSign_of_apart signs]
      exact .cons step (.cons next rest)

theorem Way.reduceSigns (way : Way rules p t q) : Way rules p (reduceSigns t) q := by
  induction way with
  | nil p => exact .nil p
  | cons step _ ih => exact ih.attachSign step

theorem Admits.reduceSigns (h : Admits rules p t) : Admits rules p (Reckoner.reduceSigns t) := by
  obtain ⟨ahead, name, way⟩ := h
  exact ⟨ahead, name, way.reduceSigns⟩

theorem way_letters (letters : Letters x) (ahead : Ahead) (name : Text) :
    Way rules (outside ahead name) x (outside ahead (name ++ x)) := by
  induction x generalizing name with
  | nil =>
    rw [List.append_nil]
    exact .nil _
  | cons c x ih =>
    obtain ⟨letter, rest⟩ := List.forall_mem_cons.1 letters
    have way := ih rest (name ++ [c])
    rw [List.append_assoc] at way
    exact .cons (.letter letter) way

theorem way_digits (digits : ∀ c ∈ t, isArgumentChar c = true) (some : t ≠ []) (zero : rules.number [])
    (fits : rules.number name) : Way rules (outside ahead name) t (outside argument []) := by
  induction t generalizing ahead name with
  | nil => exact absurd rfl some
  | cons c t ih =>
    obtain ⟨digit, rest⟩ := List.forall_mem_cons.1 digits
    refine .cons (.digit digit fits) ?_
    by_cases more : t = []
    · subst more
      exact .nil _
    · exact ih rest more zero

theorem number_nil : Rules.solved.number [] := .inl rfl

theorem way_lead {lead : Text} (sign : IsLead lead) (ahead : Ahead) :
    ∃ ahead', Way rules (outside ahead []) lead (outside ahead' []) := by
  rcases sign with rfl | rfl | rfl
  · exact ⟨ahead, .nil _⟩
  · exact ⟨nothing, .cons (.operator rfl) (.nil _)⟩
  · exact ⟨nothing, .cons (.operator rfl) (.nil _)⟩

/-- A number can be put where nothing but an operator or a mark stands before it. What follows it sees no
name, or one with that of infinity in it. -/
theorem way_plain (number : y.isNaN = false) (ahead : Ahead) : ∃ ahead' name,
    Way Rules.solved (outside ahead []) (plain y) (outside ahead' name) ∧
      Rules.solved.number name := by
  obtain ⟨front, sign⟩ := way_lead (isLead_valueSign y) ahead
  rw [plain_eq number]
  rcases sizeText_cases (magnitude y) with infinite | letterless
  · rw [infinite]
    exact ⟨front, _, sign.append (way_letters letters_infinityName front []), .inr (by decide)⟩
  · have row := (isTame_sizeText (magnitude y)).row
    have digits := isArgumentChar_of_letterless row.2 letterless
    exact ⟨argument, [], sign.append (way_digits digits row.1 number_nil number_nil), number_nil⟩

/-- What stands behind a number or a mark can stand behind a value, if it calls no function with what
is in front of its name. -/
theorem Admits.behind_value (h : Admits rules (outside ahead name) t)
    (behind : ahead = argument ∨ ahead = group ∧ ∀ n, ¬ rules.call n)
    (fits : ∀ n, rules.number n → rules.number (x ++ n)) (ahead' : Ahead) :
    Admits rules (outside ahead' (x ++ name)) t := by
  induction t generalizing name with
  | nil => exact admits_nil _ _ _
  | cons c t ih =>
    obtain ⟨m, step, rest⟩ := admits_cons.1 h
    refine admits_cons.2 ?_
    cases step with
    | letter h =>
      have more := ih rest
      rw [← List.append_assoc] at more
      exact ⟨_, .letter h, more⟩
    | digit h number => exact ⟨_, .digit h (fits _ number), rest⟩
    | operator h => exact ⟨_, .operator h, rest⟩
    | enter => rcases behind with same | ⟨same, _⟩ <;> cases same
    | call other called =>
      rcases behind with same | ⟨_, uncalled⟩
      · exact absurd same other
      · exact absurd called (uncalled _)

end Site

end Reckoner
