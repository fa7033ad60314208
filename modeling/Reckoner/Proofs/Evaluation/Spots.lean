import Reckoner.Proofs.Evaluation.Callable

set_option autoImplicit false

/- Places in a segment without calls. Marks part the names of a segment, and when they are dropped two
names can become one. So such a segment is read character by character, with what matters of the
characters before: no name is that of a function, and the row behind an opening mark has no number
behind a name and no mark behind it. -/
namespace Reckoner

open Double

/-- What stands right before a place in a segment; a row may stand behind an opening mark. -/
inductive Spot where
  | free
  | opened
  | signed
  | row (marked : Bool) (name : Text)
  | closed

/-- The name that can go on at the place. -/
def Spot.name : Spot → Text
  | row _ name => name
  | _ => []

/-- What an operator leads to. -/
def Spot.operated : Spot → Spot
  | opened | signed => signed
  | _ => free

/-- No character of an operand, and no mark. -/
def isBetween (c : Char) : Bool := !(isOperandChar c || c == openMark || c == closeMark)

/-- The name that a character begins. -/
def firstName (c : Char) : Text := if c.isAlpha then [c] else []

/-- One character further in a segment without calls. -/
inductive Step : Spot → Char → Spot → Prop
  | start {c : Char} (h : isOperandChar c = true) : Step .free c (.row false (firstName c))
  | signed {c : Char} (h : isOperandChar c = true) : Step .signed c (.row false (firstName c))
  | opened {c : Char} (h : isOperandChar c = true) : Step .opened c (.row true (firstName c))
  | letter {marked : Bool} {name : Text} {c : Char} (h : c.isAlpha = true) :
    Step (.row marked name) c (.row marked (name ++ [c]))
  | digit {marked : Bool} {name : Text} {c : Char} (h : isArgumentChar c = true)
    (other : Function.ofName? name = none) (apart : marked = true → name = []) :
    Step (.row marked name) c (.row marked [])
  | enter : Step .free openMark .opened
  | behind {name : Text} (other : Function.ofName? name = none) :
    Step (.row false name) openMark .opened
  | leave {marked : Bool} {name : Text} (other : Function.ofName? name = none) :
    Step (.row marked name) closeMark .closed
  | between {spot spot' : Spot} {c : Char} (h : isBetween c = true)
    (other : Function.ofName? spot.name = none) (next : spot' = spot.operated) : Step spot c spot'

inductive Path : Spot → Text → Spot → Prop
  | nil (spot : Spot) : Path spot [] spot
  | cons {spot spot' spot'' : Spot} {c : Char} {t : Text} (step : Step spot c spot')
    (rest : Path spot' t spot'') : Path spot (c :: t) spot''

/-- An operand ends at the place, and no call. -/
inductive Spot.Ends : Spot → Prop
  | row {marked : Bool} {name : Text} (other : Function.ofName? name = none) :
    Ends (.row marked name)
  | closed : Ends .closed

/-- A segment without calls. -/
def IsQuiet (t : Text) : Prop := ∃ spot, Path .free t spot ∧ spot.Ends

variable {spot spot' spot'' : Spot} {c d : Char} {t u r x : Text} {marked : Bool}
  {y : Float}

theorem path_append : Path spot (t ++ u) spot'' ↔ ∃ spot', Path spot t spot' ∧ Path spot' u spot'' := by
  induction t generalizing spot with
  | nil =>
    constructor
    · exact fun path => ⟨spot, .nil spot, path⟩
    · rintro ⟨_, ⟨⟩, path⟩
      exact path
  | cons c t ih =>
    constructor
    · rintro (_ | ⟨step, rest⟩)
      obtain ⟨middle, first, last⟩ := ih.1 rest
      exact ⟨middle, .cons step first, last⟩
    · rintro ⟨middle, _ | ⟨step, rest⟩, last⟩
      exact .cons step (ih.2 ⟨middle, rest, last⟩)

theorem path_cons : Path spot (c :: t) spot'' ↔ ∃ spot', Step spot c spot' ∧ Path spot' t spot'' := by
  constructor
  · rintro (_ | ⟨step, rest⟩)
    exact ⟨_, step, rest⟩
  · rintro ⟨_, step, rest⟩
    exact .cons step rest

theorem path_singleton : Path spot [c] spot' ↔ Step spot c spot' := by
  rw [path_cons]
  constructor
  · rintro ⟨_, step, ⟨⟩⟩
    exact step
  · exact fun step => ⟨spot', step, .nil spot'⟩

theorem isBetween_of_isOperator (h : isOperator c = true) : isBetween c = true := by
  obtain ⟨operator, rfl⟩ := isOperator_iff.1 h
  cases operator <;> decide

theorem isBetween_of_isSign (h : isSign c = true) : isBetween c = true :=
  isBetween_of_isOperator (by rw [isOperator, h, Bool.true_or])

theorem isBetween_iff : isBetween c = true ↔
    isOperandChar c = false ∧ c ≠ openMark ∧ c ≠ closeMark := by
  simp [isBetween, and_assoc]

theorem not_isBetween_of_isOperandChar (h : isOperandChar c = true) : isBetween c = false := by
  simp [isBetween, h]

theorem ofName?_nil : Function.ofName? [] = none := by decide

/-- Behind a character between operands the place does not depend on the name before it. -/
theorem Step.of_between (step : Step spot c spot') (h : isBetween c = true) :
    spot' = spot.operated ∧ Function.ofName? spot.name = none := by
  obtain ⟨bare, notOpen, notClose⟩ := isBetween_iff.1 h
  cases step with
  | start operand | signed operand | opened operand =>
    rw [bare] at operand
    contradiction
  | letter letter =>
    rw [isOperandChar, letter, Bool.or_true] at bare
    contradiction
  | digit digit _ _ =>
    rw [isOperandChar_of_isArgumentChar digit] at bare
    contradiction
  | enter | behind _ => exact absurd rfl notOpen
  | leave _ => exact absurd rfl notClose
  | between _ other next => exact ⟨next, other⟩

/-- An operand character leads into a row. -/
theorem Step.of_operand (step : Step spot c spot') (h : isOperandChar c = true) :
    ∃ marked name, spot' = .row marked name := by
  cases step with
  | start _ | signed _ | opened _ | letter _ | digit _ _ _ => exact ⟨_, _, rfl⟩
  | enter | behind _ | leave _ => exact absurd h (by decide)
  | between between _ _ =>
    rw [not_isBetween_of_isOperandChar h] at between
    contradiction

theorem not_step_of_isOperandChar (h : isOperandChar c = true) : ¬ Step .closed c spot := by
  intro step
  cases step with
  | between between _ _ =>
    rw [not_isBetween_of_isOperandChar h] at between
    contradiction

theorem Spot.Ends.name (h : spot.Ends) : Function.ofName? spot.name = none := by
  cases h with
  | row other => exact other
  | closed => exact ofName?_nil

theorem Spot.Ends.operated (h : spot.Ends) : spot.operated = .free := by
  cases h <;> rfl

theorem IsQuiet.join (h : IsQuiet t) (rest : IsQuiet u) (operator : Operator) :
    IsQuiet (t ++ operator.symbol :: u) := by
  obtain ⟨spot, path, ends⟩ := h
  obtain ⟨spot', path', ends'⟩ := rest
  have step : Step spot operator.symbol spot.operated :=
    .between (isBetween_of_isOperator (isOperator_iff.2 ⟨operator, rfl⟩)) ends.name rfl
  rw [ends.operated] at step
  exact ⟨spot', path_append.2 ⟨spot, path, .cons step path'⟩, ends'⟩

/-- Signs in front of an operand change nothing. -/
theorem path_signs (signs : ∀ c ∈ t, isSign c = true) : Path .free t .free := by
  induction t with
  | nil => exact .nil _
  | cons c t ih =>
    obtain ⟨sign, rest⟩ := List.forall_mem_cons.1 signs
    exact .cons (.between (isBetween_of_isSign sign) ofName?_nil rfl) (ih rest)

theorem IsQuiet.signed (h : IsQuiet u) (signs : ∀ c ∈ t, isSign c = true) : IsQuiet (t ++ u) := by
  obtain ⟨spot, path, ends⟩ := h
  exact ⟨spot, path_append.2 ⟨.free, path_signs signs, path⟩, ends⟩

/-- Two signs lead where one does. -/
theorem Path.attachSign (step : Step spot c spot') (path : Path spot' t spot'') :
    Path spot (attachSign c t) spot'' := by
  cases path with
  | nil => exact path_singleton.2 step
  | @cons _ middle _ d t next rest =>
    by_cases signs : isSign c = true ∧ isSign d = true
    · obtain ⟨sign, sign'⟩ := signs
      rw [attachSign_of_signs sign sign']
      obtain ⟨rfl, other⟩ := step.of_between (isBetween_of_isSign sign)
      obtain ⟨rfl, _⟩ := next.of_between (isBetween_of_isSign sign')
      have same : spot.operated.operated = spot.operated := by cases spot <;> rfl
      rw [same] at rest
      exact .cons (.between (isBetween_of_isSign (isSign_combineSigns c d)) other rfl) rest
    · rw [attachSign_of_apart signs]
      exact .cons step (.cons next rest)

theorem Path.reduceSigns (path : Path spot t spot'') : Path spot (reduceSigns t) spot'' := by
  induction path with
  | nil => exact .nil _
  | cons step _ ih => exact ih.attachSign step

theorem path_letters (letters : Letters x) (marked : Bool) (name : Text) :
    Path (.row marked name) x (.row marked (name ++ x)) := by
  induction x generalizing name with
  | nil =>
    rw [List.append_nil]
    exact .nil _
  | cons c x ih =>
    obtain ⟨letter, rest⟩ := List.forall_mem_cons.1 letters
    have path := ih rest (name ++ [c])
    rw [List.append_assoc] at path
    exact .cons (.letter letter) path

/-- A place where a row can begin, or go on without a name. -/
inductive Spot.Begins : Bool → Spot → Prop
  | free : Begins false .free
  | signed : Begins false .signed
  | opened : Begins true .opened
  | row (marked : Bool) : Begins marked (.row marked [])

theorem Spot.Begins.name (h : spot.Begins marked) : spot.name = [] := by
  cases h <;> rfl

theorem Spot.Begins.step (h : spot.Begins marked) (operand : isOperandChar c = true) :
    Step spot c (.row marked (firstName c)) := by
  cases h with
  | free => exact .start operand
  | signed => exact .signed operand
  | opened => exact .opened operand
  | row =>
    unfold firstName
    split
    next letter => exact .letter letter
    next other =>
      refine .digit ?_ ofName?_nil fun _ => rfl
      simpa [isOperandChar, isArgumentChar, other] using operand

theorem Spot.Begins.name_path (h : spot.Begins marked) (nonempty : x ≠ []) (letters : Letters x) :
    Path spot x (.row marked x) := by
  obtain ⟨c, x, rfl⟩ := List.exists_cons_of_ne_nil nonempty
  obtain ⟨letter, rest⟩ := List.forall_mem_cons.1 letters
  have first := h.step (isOperandChar_of_isAlpha letter)
  rw [firstName, if_pos letter] at first
  exact .cons first (path_letters rest marked [c])

/-- No name is read in what has no letters. -/
theorem Spot.Begins.letterless_path (h : spot.Begins marked) (letterless : Letterless t)
    (unmarked : openMark ∉ t ∧ closeMark ∉ t) : ∃ spot' marked', Path spot t spot' ∧ spot'.Begins marked' := by
  induction t generalizing spot marked with
  | nil => exact ⟨spot, marked, .nil _, h⟩
  | cons c t ih =>
    obtain ⟨bare, rest⟩ := List.forall_mem_cons.1 letterless
    simp only [List.mem_cons, not_or] at unmarked
    have step : ∃ spot' marked', Step spot c spot' ∧ spot'.Begins marked' := by
      by_cases operand : isOperandChar c = true
      · have first := h.step operand
        rw [firstName, if_neg (by rw [bare]; decide)] at first
        exact ⟨_, _, first, .row marked⟩
      · have between : isBetween c = true := isBetween_iff.2 ⟨by simpa using operand,
          Ne.symm unmarked.1.1, Ne.symm unmarked.2.1⟩
        have other : Function.ofName? spot.name = none := by rw [h.name, ofName?_nil]
        refine ⟨spot.operated, false, .between between other rfl, ?_⟩
        cases h with
        | free | row => exact .free
        | signed | opened => exact .signed
    obtain ⟨spot', marked', first, begins⟩ := step
    obtain ⟨last, marked'', path, begins'⟩ := ih begins rest ⟨unmarked.1.2, unmarked.2.2⟩
    exact ⟨last, marked'', .cons first path, begins'⟩

/-- A text that ends with an operand character leads into a row. -/
theorem Path.row (path : Path spot t spot') (ends : endsInside false t = true) :
    ∃ marked name, spot' = .row marked name := by
  rcases List.eq_nil_or_concat t with rfl | ⟨u, c, rfl⟩
  · contradiction
  · rw [List.concat_eq_append] at path ends
    rw [endsInside_append] at ends
    obtain ⟨_, _, last⟩ := path_append.1 path
    exact (path_singleton.1 last).of_operand ends

theorem path_digits (digits : ∀ c ∈ t, isArgumentChar c = true) (marked : Bool) :
    Path (.row marked []) t (.row marked []) := by
  induction t with
  | nil => exact .nil _
  | cons c t ih =>
    obtain ⟨digit, rest⟩ := List.forall_mem_cons.1 digits
    exact .cons (.digit digit ofName?_nil fun _ => rfl) (ih rest)

theorem isArgumentChar_of_letterless (row : Solid r) (letterless : Letterless r) :
    ∀ c ∈ r, isArgumentChar c = true := by
  intro c member
  simpa [isOperandChar, isArgumentChar, letterless c member] using row c member

/-- A place where a number can be put. -/
inductive Spot.Admits : Spot → Prop
  | free : Admits .free
  | signed : Admits .signed
  | row {name : Text} (other : Function.ofName? name = none) : Admits (.row false name)

theorem Spot.Admits.sign (h : spot.Admits) (sign : isSign c = true) :
    Step spot c spot.operated ∧ spot.operated.Admits := by
  have between := isBetween_of_isSign sign
  cases h with
  | free => exact ⟨.between between ofName?_nil rfl, .free⟩
  | signed => exact ⟨.between between ofName?_nil rfl, .signed⟩
  | row other => exact ⟨.between between other rfl, .free⟩

theorem Spot.Admits.digits (h : spot.Admits) (row : IsRow r) (letterless : Letterless r) :
    Path spot r (.row false []) := by
  have digits := isArgumentChar_of_letterless row.2 letterless
  obtain ⟨c, r, rfl, operand⟩ := row.exists_cons
  obtain ⟨digit, rest⟩ := List.forall_mem_cons.1 digits
  have none : firstName c = [] := by rw [firstName, letterless c (.head _), if_neg (by decide)]
  refine .cons ?_ (path_digits rest false)
  cases h with
  | free =>
    rw [← none]
    exact .start operand
  | signed =>
    rw [← none]
    exact .signed operand
  | row other => exact .digit digit other nofun

/-- No function has a capital letter in its name. -/
theorem ofName?_of_mem (member : 'I' ∈ x) : Function.ofName? x = none := by
  cases found : Function.ofName? x with
  | none => rfl
  | some f =>
    rw [← Function.name_of_ofName? found] at member
    revert member
    cases f with
    | trig f => cases f <;> decide
    | _ => decide

theorem Spot.Admits.infinity (h : spot.Admits) :
    ∃ name, Path spot infinityName (.row false name) ∧ Function.ofName? name = none := by
  have some : infinityName ≠ [] := by decide
  have alone : Function.ofName? infinityName = none := ofName?_of_mem (.head _)
  cases h with
  | free => exact ⟨_, Spot.Begins.free.name_path some letters_infinityName, alone⟩
  | signed => exact ⟨_, Spot.Begins.signed.name_path some letters_infinityName, alone⟩
  | @row name other =>
    refine ⟨_, path_letters letters_infinityName false name, ofName?_of_mem ?_⟩
    exact List.mem_append_right name (.head _)

theorem sizeText_cases (bits : Nat) :
    sizeText bits = infinityName ∨ Letterless (sizeText bits) := by
  unfold sizeText
  split
  · refine .inr ?_
    unfold Letterless
    decide
  · split
    · exact .inl rfl
    · exact .inr (letterless_positional _)

theorem Spot.Admits.size (h : spot.Admits) (bits : Nat) :
    ∃ name, Path spot (sizeText bits) (.row false name) ∧ Function.ofName? name = none := by
  rcases sizeText_cases bits with infinite | letterless
  · rw [infinite]
    exact h.infinity
  · exact ⟨[], h.digits (isTame_sizeText bits).row letterless, ofName?_nil⟩

/-- A number can be put where an operand can begin, and directly behind a name. -/
theorem Spot.Admits.plain (h : spot.Admits) (number : y.isNaN = false) :
    ∃ name, Path spot (Double.plain y) (.row false name) ∧ Function.ofName? name = none := by
  have signed {c : Char} (sign : isSign c = true) : ∃ name,
      Path spot ([c] ++ sizeText (magnitude y)) (.row false name) ∧ Function.ofName? name = none := by
    obtain ⟨step, admits⟩ := h.sign sign
    obtain ⟨name, path, other⟩ := admits.size (magnitude y)
    exact ⟨name, .cons step path, other⟩
  rw [plain_eq number]
  rcases isLead_valueSign y with none | plus | minus
  · rw [none, List.nil_append]
    exact h.size _
  · rw [plus]
    exact signed rfl
  · rw [minus]
    exact signed rfl

theorem isQuiet_plain (number : y.isNaN = false) : IsQuiet (Double.plain y) := by
  obtain ⟨name, path, other⟩ := Spot.Admits.free.plain number
  exact ⟨_, path, .row other⟩

theorem isQuiet_digits (row : IsRow r) (letterless : Letterless r) : IsQuiet r :=
  ⟨_, Spot.Admits.free.digits row letterless, .row ofName?_nil⟩

theorem isQuiet_name (nonempty : x ≠ []) (letters : Letters x)
    (other : Function.ofName? x = none) : IsQuiet x :=
  ⟨_, Spot.Begins.free.name_path nonempty letters, .row other⟩

end Reckoner
