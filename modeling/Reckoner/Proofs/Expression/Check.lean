import Reckoner.Expression.Canonical
import Reckoner.Expression.Check
import Reckoner.Proofs.Outcome
import Reckoner.Proofs.Traced

set_option autoImplicit false

namespace Reckoner

variable {t u : Text} {a b c : Char} {position depth d : Nat}

/-- An expression in canonical form that the check accepts. -/
structure Accepted (t : Text) : Prop where
  written : ∃ constants raw, (canonical constants raw).outcome = .ok t
  checked : (check t).outcome = .ok ()

/-- What stands around an operand: the start, an opening parenthesis or an operator, and an
operator, a closing parenthesis or the end. -/
structure Delimits (before after : Text) : Prop where
  before : ∀ c ∈ before.getLast?, c = '(' ∨ isOperator c = true
  after : ∀ c ∈ after.head?, c = ')' ∨ isOperator c = true

theorem openAtEnd_open (position depth : Nat) (t : Text) :
    openAtEnd position depth ('(' :: t) = openAtEnd (position + 1) (depth + 1) t := rfl

theorem openAtEnd_close (position depth : Nat) (t : Text) :
    openAtEnd position (depth + 1) (')' :: t) = openAtEnd (position + 1) depth t := rfl

theorem openAtEnd_other (open' : c ≠ '(') (close : c ≠ ')') (position depth : Nat) (t : Text) :
    openAtEnd position depth (c :: t) = openAtEnd (position + 1) depth t := by
  rw [openAtEnd]
  · rintro rfl
    exact open' rfl
  · rintro rfl
    exact close rfl

/-- The depth behind the first part is the depth before the second one. -/
theorem openAtEnd_append (closed : openAtEnd position depth (t ++ u) = .ok d) :
    ∃ middle position', openAtEnd position depth t = .ok middle ∧
      openAtEnd position' middle u = .ok d := by
  induction t generalizing position depth with
  | nil => exact ⟨depth, position, rfl, closed⟩
  | cons c t ih =>
    by_cases open' : c = '('
    · subst open'
      exact ih closed
    · by_cases close : c = ')'
      · subst close
        cases depth with
        | zero => contradiction
        | succ depth => exact ih closed
      · rw [List.cons_append, openAtEnd_other open' close] at closed
        rw [openAtEnd_other open' close]
        exact ih closed

theorem openAtEnd_append_of_ok (front : openAtEnd position depth t = .ok d) :
    openAtEnd position depth (t ++ u) = openAtEnd (position + t.length) d u := by
  induction t generalizing position depth with
  | nil =>
    cases front
    rfl
  | cons c t ih =>
    have next : position + (c :: t).length = position + 1 + t.length := by
      rw [List.length_cons]
      omega
    rw [next]
    by_cases open' : c = '('
    · subst open'
      exact ih front
    · by_cases close : c = ')'
      · subst close
        cases depth with
        | zero => contradiction
        | succ depth => exact ih front
      · rw [openAtEnd_other open' close] at front
        rw [List.cons_append, openAtEnd_other open' close]
        exact ih front

/-- The four scans of an accepted expression. -/
theorem check_ok_iff : (check t).outcome = .ok () ↔
    checkParentheses t = .ok () ∧ checkOperators t = .ok () ∧ checkPoints t = .ok () ∧
      checkCharacters 0 t = .ok () := by
  unfold check
  simp only [Traced.outcome_bind, Traced.outcome_emit, Traced.outcome_ofExcept]
  constructor
  · intro h
    obtain ⟨_, _, h⟩ := bind_eq_ok h
    obtain ⟨⟨⟩, parentheses, h⟩ := bind_eq_ok h
    obtain ⟨_, _, h⟩ := bind_eq_ok h
    obtain ⟨⟨⟩, operators, h⟩ := bind_eq_ok h
    obtain ⟨_, _, h⟩ := bind_eq_ok h
    obtain ⟨⟨⟩, points, h⟩ := bind_eq_ok h
    obtain ⟨_, _, h⟩ := bind_eq_ok h
    obtain ⟨⟨⟩, characters, _⟩ := bind_eq_ok h
    exact ⟨parentheses, operators, points, characters⟩
  · rintro ⟨parentheses, operators, points, characters⟩
    rw [parentheses, operators, points, characters]
    rfl

theorem openAtEnd_of_check (h : (check t).outcome = .ok ()) : openAtEnd 0 0 t = .ok 0 := by
  obtain ⟨parentheses, _⟩ := check_ok_iff.1 h
  unfold checkParentheses at parentheses
  split at parentheses
  · contradiction
  · obtain ⟨depth, closed, rest⟩ := bind_eq_ok parentheses
    cases depth with
    | zero => exact closed
    | succ depth => contradiction

theorem isCanonicalChar_of_checkCharacters (h : checkCharacters position t = .ok ()) :
    ∀ c ∈ t, isCanonicalChar c = true := by
  induction t generalizing position with
  | nil => exact nofun
  | cons c t ih =>
    unfold checkCharacters at h
    split at h
    next first => exact List.forall_mem_cons.2 ⟨first, ih h⟩
    next => contradiction

theorem isCanonicalChar_of_check (h : (check t).outcome = .ok ()) :
    ∀ c ∈ t, isCanonicalChar c = true :=
  isCanonicalChar_of_checkCharacters (check_ok_iff.1 h).2.2.2

theorem checkTriples_middle {check : Char → Char → Char → Nat → Except Fault Unit}
    (h : checkTriples check position (t ++ a :: c :: b :: u) = .ok ()) :
    ∃ position, check a c b position = .ok () := by
  induction t generalizing position with
  | nil =>
    obtain ⟨⟨⟩, here, _⟩ := bind_eq_ok h
    exact ⟨position, here⟩
  | cons d t ih =>
    cases t with
    | nil =>
      obtain ⟨⟨⟩, _, rest⟩ := bind_eq_ok h
      exact ih rest
    | cons e t =>
      cases t with
      | nil =>
        obtain ⟨⟨⟩, _, rest⟩ := bind_eq_ok h
        exact ih rest
      | cons f t =>
        obtain ⟨⟨⟩, _, rest⟩ := bind_eq_ok h
        exact ih rest

theorem checkOperators_ok_iff : checkOperators t = .ok () ↔
    (∀ c ∈ t.head?, isBinaryOnly c = false) ∧ (∀ c ∈ t.getLast?, isOperator c = false) ∧
      checkTriples checkInner 1 t = .ok () := by
  unfold checkOperators
  cases head : t.head? with
  | none =>
    rw [List.head?_eq_none_iff] at head
    subst head
    exact ⟨fun _ => ⟨nofun, nofun, rfl⟩, fun _ => rfl⟩
  | some c =>
    cases last : t.getLast? with
    | none =>
      rw [List.getLast?_eq_none_iff] at last
      subst last
      contradiction
    | some e =>
      cases first : isBinaryOnly c <;> cases final : isOperator e <;>
        simp [first, final, Option.mem_def, bind, Except.bind, throw, throwThe,
          MonadExceptOf.throw]

theorem checkPoints_ok_iff : checkPoints t = .ok () ↔
    t.head? ≠ some '.' ∧ t.getLast? ≠ some '.' ∧ checkTriples checkPoint 1 t = .ok () ∧
      checkSinglePoint false 0 t = .ok () := by
  unfold checkPoints
  by_cases first : t.head? = some '.'
  · simp [first, bind, Except.bind, throw, throwThe, MonadExceptOf.throw]
  · by_cases last : t.getLast? = some '.'
    · simp [first, last, bind, Except.bind, throw, throwThe, MonadExceptOf.throw]
    · cases triples : checkTriples checkPoint 1 t <;>
        simp [first, last, bind, Except.bind]

theorem checkInner_of_check (h : (check (t ++ a :: c :: b :: u)).outcome = .ok ()) :
    ∃ position, checkInner a c b position = .ok () :=
  checkTriples_middle (checkOperators_ok_iff.1 (check_ok_iff.1 h).2.1).2.2

theorem neighbors_of_checkNeighbors {before after : Char → Bool}
    (h : checkNeighbors before after a c b position = .ok ()) : before a = true ∧ after b = true := by
  unfold checkNeighbors at h
  split at h
  · contradiction
  next first =>
    split at h
    · contradiction
    next second => exact ⟨by simpa using first, by simpa using second⟩

/-- The neighbours of a sign inside an accepted expression. -/
theorem neighbors_of_sign (h : (check (t ++ a :: c :: b :: u)).outcome = .ok ())
    (sign : isSign c = true) : fitsBeforeSign a = true ∧ fitsAfterSign b = true := by
  obtain ⟨position, fits⟩ := checkInner_of_check h
  unfold checkInner at fits
  rw [if_pos sign] at fits
  exact neighbors_of_checkNeighbors fits

end Reckoner
