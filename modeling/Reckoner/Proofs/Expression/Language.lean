import Reckoner.Proofs.Evaluation.Recursion
import Reckoner.Proofs.Expression.Acceptance

set_option autoImplicit false

namespace Reckoner

variable {t u : Text} {a b c : Char} {position depth d : Nat} {f : Fault}
  {scan : Char → Char → Char → Nat → Except Fault Unit}

structure Enclosed (t : Text) : Prop where
  nonempty : t ≠ []
  nested : WellNested t
  filled : ¬ ['(', ')'] <:+: t

/-- No operator lacks an operand. -/
structure Joined (t : Text) : Prop where
  first : ∀ c ∈ t.head?, isBinaryOnly c = false
  last : ∀ c ∈ t.getLast?, isOperator c = false
  sign : ∀ u a c b v, t = u ++ a :: c :: b :: v → isSign c = true →
    (isOperator a = true ∨ a = '(' ∨ a = ')' ∨ isAlphanumeric a = true) ∧
      (b = '(' ∨ isAlphanumeric b = true)
  binary : ∀ u a c b v, t = u ++ a :: c :: b :: v → isBinaryOnly c = true →
    (a = ')' ∨ isAlphanumeric a = true) ∧ (isSign b = true ∨ b = '(' ∨ isAlphanumeric b = true)

/-- Every point stands between two digits, and there is an operator between any two points. -/
structure Pointed (t : Text) : Prop where
  digits : ∀ u v, t = u ++ '.' :: v →
    (∃ a ∈ u.getLast?, a.isDigit = true) ∧ ∃ b ∈ v.head?, b.isDigit = true
  apart : PointsApart t

def Spelled (t : Text) : Prop :=
  ∀ c ∈ t, c.isDigit = true ∨ c.isAlpha = true ∨ c = '.' ∨ c = '(' ∨ c = ')' ∨ isOperator c = true

theorem hollow?_eq_none_iff : hollow? position t = none ↔ ¬ ['(', ')'] <:+: t := by
  constructor
  · rintro none ⟨u, v, rfl⟩
    apply hollow?_ne_none position u v
    rw [← none, List.append_assoc]
    rfl
  · intro filled
    apply hollow?_eq_none
    rw [List.isChain_iff_forall_rel_of_append_cons_cons]
    rintro a b u v rfl ⟨rfl, rfl⟩
    apply filled
    exact ⟨u, v, by simp⟩

theorem checkParentheses_eq_ok_iff : checkParentheses t = .ok () ↔ Enclosed t := by
  unfold checkParentheses
  by_cases empty : t = []
  · subst empty
    constructor
    · intro passed
      cases passed
    · intro enclosed
      exact absurd rfl enclosed.nonempty
  · rw [if_neg (by simpa using empty)]
    constructor
    · intro passed
      obtain ⟨d, closed, rest⟩ := bind_eq_ok passed
      cases d with
      | succ d => contradiction
      | zero =>
        have full : hollow? 0 t = none := by
          cases found : hollow? 0 t with
          | none => rfl
          | some p => simp [found] at rest
        exact ⟨empty, wellNested_iff.2 closed, hollow?_eq_none_iff.1 full⟩
    · intro enclosed
      have closed := wellNested_iff.1 enclosed.nested
      have full : hollow? 0 t = none := hollow?_eq_none_iff.2 enclosed.filled
      rw [closed, full]
      rfl

theorem kind_of_openAtEnd (failed : openAtEnd position depth t = .error f) :
    f.kind = .parenthesis := by
  induction t generalizing position depth with
  | nil => contradiction
  | cons c t ih =>
    by_cases open' : c = '('
    · subst open'
      exact ih failed
    · by_cases close : c = ')'
      · subst close
        cases depth with
        | zero =>
          cases failed
          rfl
        | succ depth => exact ih failed
      · rw [openAtEnd_other open' close] at failed
        exact ih failed

theorem kind_of_checkParentheses (failed : checkParentheses t = .error f) :
    f.kind = .parenthesis := by
  unfold checkParentheses at failed
  split at failed
  · cases failed
    rfl
  · cases closed : openAtEnd 0 0 t with
    | error g =>
      rw [closed] at failed
      cases failed
      exact kind_of_openAtEnd closed
    | ok d =>
      rw [closed] at failed
      cases d with
      | succ d =>
        cases failed
        rfl
      | zero =>
        cases found : hollow? 0 t with
        | none => simp [found, bind, Except.bind] at failed
        | some p =>
          simp [found, bind, Except.bind] at failed
          cases failed
          rfl

/-- A scan of neighbours that looks at no position holds of every character that has two. -/
theorem checkTriples_eq_ok_iff {fits : Char → Char → Char → Prop}
    (same : ∀ a c b p, scan a c b p = .ok () ↔ fits a c b) :
    checkTriples scan position t = .ok () ↔ ∀ u a c b v, t = u ++ a :: c :: b :: v → fits a c b := by
  constructor
  · rintro passed u a c b v rfl
    obtain ⟨p, here⟩ := checkTriples_middle passed
    exact (same a c b p).1 here
  · intro every
    apply checkTriples_eq_ok
    intro u a c b v p shape
    exact (same a c b p).2 (every u a c b v shape)

theorem error_of_checkTriples (failed : checkTriples scan position t = .error f) :
    ∃ a c b p, scan a c b p = .error f := by
  induction t generalizing position with
  | nil => contradiction
  | cons a t ih =>
    rcases t with _ | ⟨c, _ | ⟨b, t⟩⟩
    · contradiction
    · contradiction
    · rw [checkTriples] at failed
      rcases bind_eq_error failed with here | ⟨_, _, behind⟩
      · exact ⟨a, c, b, position, here⟩
      · exact ih behind

theorem checkNeighbors_eq_ok_iff {before after : Char → Bool} :
    checkNeighbors before after a c b position = .ok () ↔ before a = true ∧ after b = true :=
  ⟨neighbors_of_checkNeighbors, fun fits => checkNeighbors_eq_ok fits.1 fits.2⟩

theorem not_isBinaryOnly_of_isSign (sign : isSign c = true) : isBinaryOnly c = false := by
  rcases isSign_iff.1 sign with rfl | rfl <;> rfl

theorem checkInner_eq_ok_iff : checkInner a c b position = .ok () ↔
    (isSign c = true → fitsBeforeSign a = true ∧ fitsAfterSign b = true) ∧
      (isBinaryOnly c = true → fitsBeforeBinary a = true ∧ fitsAfterBinary b = true) := by
  unfold checkInner
  by_cases sign : isSign c = true
  · rw [if_pos sign, checkNeighbors_eq_ok_iff, not_isBinaryOnly_of_isSign sign]
    simp [sign]
  · rw [if_neg sign]
    by_cases binary : isBinaryOnly c = true
    · rw [if_pos binary, checkNeighbors_eq_ok_iff]
      simp [sign, binary]
    · rw [if_neg binary]
      simp [sign, binary]

theorem checkOperators_eq_ok_iff : checkOperators t = .ok () ↔ Joined t := by
  rw [checkOperators_ok_iff, checkTriples_eq_ok_iff fun a c b p => @checkInner_eq_ok_iff a b c p]
  simp only [fitsBeforeSign, fitsAfterSign, fitsBeforeBinary, fitsAfterBinary, Bool.or_eq_true,
    beq_iff_eq, or_assoc]
  constructor
  · rintro ⟨first, last, inner⟩
    exact ⟨first, last, fun u a c b v shape => (inner u a c b v shape).1,
      fun u a c b v shape => (inner u a c b v shape).2⟩
  · rintro ⟨first, last, sign, binary⟩
    exact ⟨first, last, fun u a c b v shape => ⟨sign u a c b v shape, binary u a c b v shape⟩⟩

theorem kind_of_checkNeighbors {before after : Char → Bool}
    (failed : checkNeighbors before after a c b position = .error f) : f.kind = .operator := by
  unfold checkNeighbors at failed
  split at failed
  · cases failed
    rfl
  · split at failed
    · cases failed
      rfl
    · contradiction

theorem kind_of_checkInner (failed : checkInner a c b position = .error f) :
    f.kind = .operator := by
  unfold checkInner at failed
  split at failed
  · exact kind_of_checkNeighbors failed
  · split at failed
    · exact kind_of_checkNeighbors failed
    · contradiction

/-- The faults of the scan for operators: those at the two ends, and those of characters with two
neighbours. -/
theorem error_of_checkOperators (failed : checkOperators t = .error f) :
    (∃ c, f = .leadingOperator c) ∨ (∃ c p, f = .trailingOperator c p) ∨
      checkTriples checkInner 1 t = .error f := by
  unfold checkOperators at failed
  cases head : t.head? with
  | none =>
    rw [List.head?_eq_none_iff] at head
    subst head
    contradiction
  | some c =>
    cases last : t.getLast? with
    | none =>
      rw [List.getLast?_eq_none_iff] at last
      subst last
      contradiction
    | some e =>
      by_cases first : isBinaryOnly c = true
      · simp only [head, if_pos first] at failed
        cases failed
        exact .inl ⟨c, rfl⟩
      by_cases final : isOperator e = true
      · simp only [head, last, if_neg first, if_pos final] at failed
        cases failed
        exact .inr (.inl ⟨e, _, rfl⟩)
      · simp only [head, last, if_neg first, if_neg final] at failed
        exact .inr (.inr failed)

theorem kind_of_checkOperators (failed : checkOperators t = .error f) : f.kind = .operator := by
  rcases error_of_checkOperators failed with ⟨c, rfl⟩ | ⟨c, p, rfl⟩ | inner
  · rfl
  · rfl
  · obtain ⟨a, c, b, p, here⟩ := error_of_checkTriples inner
    exact kind_of_checkInner here

theorem checkPoint_eq_ok_iff : checkPoint a c b position = .ok () ↔
    (c = '.' → a.isDigit = true ∧ b.isDigit = true) := by
  unfold checkPoint
  by_cases point : c = '.'
  · cases first : a.isDigit <;> cases second : b.isDigit <;> simp [point]
  · simp [point]

theorem checkPoints_eq_ok_iff : checkPoints t = .ok () ↔ Pointed t := by
  rw [checkPoints_ok_iff, checkTriples_eq_ok_iff fun a c b p => @checkPoint_eq_ok_iff a b c p]
  constructor
  · rintro ⟨first, last, inner, single⟩
    refine ⟨fun u v shape => ?_, pointsApart_of_checkSinglePoint single⟩
    rcases List.eq_nil_or_concat u with rfl | ⟨u, a, rfl⟩
    · rw [shape] at first
      exact absurd rfl first
    · cases v with
      | nil =>
        rw [shape, List.getLast?_concat] at last
        exact absurd rfl last
      | cons b v =>
        rw [List.concat_eq_append, List.append_assoc] at shape
        obtain ⟨before, after⟩ := inner u a '.' b v shape rfl
        exact ⟨⟨a, by simp, before⟩, b, rfl, after⟩
  · intro pointed
    refine ⟨?_, ?_, ?_, checkSinglePoint_eq_ok pointed.apart nofun⟩
    · intro first
      obtain ⟨v, rfl⟩ := List.head?_eq_some_iff.1 first
      obtain ⟨⟨a, before, _⟩, _⟩ := pointed.digits [] v rfl
      contradiction
    · intro last
      obtain ⟨u, rfl⟩ := List.getLast?_eq_some_iff.1 last
      obtain ⟨_, b, after, _⟩ := pointed.digits u [] rfl
      contradiction
    · rintro u a c b v shape rfl
      obtain ⟨⟨a', before, digit⟩, b', after, digit'⟩ :=
        pointed.digits (u ++ [a]) (b :: v) (by rw [shape]; simp)
      simp only [List.getLast?_concat, List.head?_cons, Option.mem_def, Option.some.injEq]
        at before after
      subst before after
      exact ⟨digit, digit'⟩

theorem kind_of_checkSinglePoint {seen : Bool}
    (failed : checkSinglePoint seen position t = .error f) : f.kind = .decimalPoint := by
  induction t generalizing seen position with
  | nil => contradiction
  | cons c t ih =>
    rw [checkSinglePoint] at failed
    split at failed
    · cases failed
      rfl
    · exact ih failed

/-- The faults of the scans for points. -/
theorem error_of_checkPoints (failed : checkPoints t = .error f) :
    f = .leadingPoint ∨ (∃ p, f = .trailingPoint p) ∨ checkTriples checkPoint 1 t = .error f ∨
      checkSinglePoint false 0 t = .error f := by
  unfold checkPoints at failed
  by_cases first : t.head? = some '.'
  · rw [if_pos (by simpa using first)] at failed
    cases failed
    exact .inl rfl
  by_cases last : t.getLast? = some '.'
  · rw [if_neg (by simpa using first), if_pos (by simpa using last)] at failed
    cases failed
    exact .inr (.inl ⟨_, rfl⟩)
  rw [if_neg (by simpa using first), if_neg (by simpa using last)] at failed
  exact .inr (.inr ((bind_eq_error failed).imp_right fun ⟨_, _, single⟩ => single))

theorem kind_of_checkPoints (failed : checkPoints t = .error f) : f.kind = .decimalPoint := by
  rcases error_of_checkPoints failed with rfl | ⟨p, rfl⟩ | inner | single
  · rfl
  · rfl
  · obtain ⟨a, c, b, p, here⟩ := error_of_checkTriples inner
    unfold checkPoint at here
    split at here
    · cases here
      rfl
    · contradiction
  · exact kind_of_checkSinglePoint single

theorem checkCharacters_eq_ok_iff : checkCharacters position t = .ok () ↔ Spelled t := by
  have same (c : Char) : isCanonicalChar c = true ↔ c.isDigit = true ∨ c.isAlpha = true ∨ c = '.' ∨
      c = '(' ∨ c = ')' ∨ isOperator c = true := by
    simp only [isCanonicalChar, isAlphanumeric, Bool.or_eq_true, beq_iff_eq]
    tauto
  constructor
  · intro passed c member
    exact (same c).1 (isCanonicalChar_of_checkCharacters passed c member)
  · intro spelled
    exact checkCharacters_eq_ok fun c member => (same c).2 (spelled c member)

theorem kind_of_checkCharacters (failed : checkCharacters position t = .error f) :
    f.kind = .invalidChar := by
  induction t generalizing position with
  | nil => contradiction
  | cons c t ih =>
    rw [checkCharacters] at failed
    split at failed
    · exact ih failed
    · cases failed
      rfl

theorem check_outcome (t : Text) : (check t).outcome =
    (checkParentheses t).bind fun _ => (checkOperators t).bind fun _ =>
      (checkPoints t).bind fun _ => checkCharacters 0 t := by
  unfold check
  simp only [Traced.outcome_bind, Traced.outcome_emit, Traced.outcome_ofExcept]
  cases checkParentheses t with
  | error f => rfl
  | ok _ =>
    cases checkOperators t with
    | error f => rfl
    | ok _ =>
      cases checkPoints t with
      | error f => rfl
      | ok _ => cases checkCharacters 0 t <;> rfl

/-- What a fault of the check tells about a text: the first condition that is not met. -/
inductive Rejected (t : Text) : Fault.Kind → Prop where
  | parenthesis (h : ¬ Enclosed t) : Rejected t .parenthesis
  | operator (enclosed : Enclosed t) (h : ¬ Joined t) : Rejected t .operator
  | decimalPoint (enclosed : Enclosed t) (joined : Joined t) (h : ¬ Pointed t) :
    Rejected t .decimalPoint
  | invalidChar (enclosed : Enclosed t) (joined : Joined t) (pointed : Pointed t)
    (h : ¬ Spelled t) : Rejected t .invalidChar

theorem not_of_error {scanned : Except Fault Unit} {condition : Prop}
    (passes : scanned = .ok () ↔ condition) (failed : scanned = .error f) : ¬ condition := by
  intro met
  rw [passes.2 met] at failed
  contradiction

/-- A fault comes from the first scan that does not pass. -/
theorem rejected_of_error (failed : (check t).outcome = .error f) : Rejected t f.kind := by
  rw [check_outcome] at failed
  rcases bind_eq_error failed with parentheses | ⟨_, parentheses, failed⟩
  · rw [kind_of_checkParentheses parentheses]
    exact .parenthesis (not_of_error checkParentheses_eq_ok_iff parentheses)
  have enclosed := checkParentheses_eq_ok_iff.1 parentheses
  rcases bind_eq_error failed with operators | ⟨_, operators, failed⟩
  · rw [kind_of_checkOperators operators]
    exact .operator enclosed (not_of_error checkOperators_eq_ok_iff operators)
  have joined := checkOperators_eq_ok_iff.1 operators
  rcases bind_eq_error failed with points | ⟨_, points, characters⟩
  · rw [kind_of_checkPoints points]
    exact .decimalPoint enclosed joined (not_of_error checkPoints_eq_ok_iff points)
  have pointed := checkPoints_eq_ok_iff.1 points
  rw [kind_of_checkCharacters characters]
  exact .invalidChar enclosed joined pointed (not_of_error checkCharacters_eq_ok_iff characters)

/-- The check accepts the texts that meet all four conditions, and the kind of its fault is that of
the first condition that is not met. -/
theorem check_language (t : Text) :
    ((check t).outcome = .ok () ↔ Enclosed t ∧ Joined t ∧ Pointed t ∧ Spelled t) ∧
      ∀ f, (check t).outcome = .error f → Rejected t f.kind := by
  rw [← checkParentheses_eq_ok_iff, ← checkOperators_eq_ok_iff, ← checkPoints_eq_ok_iff,
    ← @checkCharacters_eq_ok_iff t 0]
  exact ⟨check_ok_iff, fun _ => rejected_of_error⟩

end Reckoner
