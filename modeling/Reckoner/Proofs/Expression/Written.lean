import Reckoner.Proofs.Evaluation.Balanced
import Reckoner.Proofs.Evaluation.Grammar
import Reckoner.Proofs.Expression.Neighbors

set_option autoImplicit false

namespace Reckoner

/-- An operator between two operands, with the sign of the second one unless it is itself a sign. -/
inductive IsJoint : Text → Prop
  | sum {operator : Operator} (h : operator.rank = .sum) : IsJoint [operator.symbol]
  | signed {operator : Operator} {lead : Text} (h : operator.rank ≠ .sum) (sign : IsLead lead) :
    IsJoint (operator.symbol :: lead)

/-- An operand without parentheses: a numeral, a name, or a name with a numeral as its argument. -/
inductive IsAtom : Text → Prop
  | literal (l : Literal) : IsAtom l.text
  | name {x : Text} (nonempty : x ≠ []) (letters : Letters x) : IsAtom x
  | applied {x : Text} (l : Literal) (nonempty : x ≠ []) (letters : Letters x) :
    IsAtom (x ++ l.text)

/-- Whether an expression is read up to where an operand has to follow, or as a whole. -/
inductive Stage
  | front
  | whole

/-- A text as an expression is written, up to this stage: with these operands, and with these names
in front of groups. -/
inductive Written (atom call : Text → Prop) : Stage → Text → Prop
  | lead {t : Text} (sign : IsLead t) : Written atom call .front t
  | atom {p f : Text} (front : Written atom call .front p) (h : atom f) :
    Written atom call .whole (p ++ f)
  | group {p x t : Text} (front : Written atom call .front p) (h : call x)
    (inner : Written atom call .whole t) : Written atom call .whole (p ++ (x ++ '(' :: (t ++ [')'])))
  | joint {s j : Text} (before : Written atom call .whole s) (h : IsJoint j) :
    Written atom call .front (s ++ j)

/-- No letter stands directly behind a closing parenthesis. -/
def NamesApart (t : Text) : Prop := ∀ u c v, t = u ++ ')' :: c :: v → c.isAlpha = false

/-- What is left of an expression where a part of it has been read that closes all it opens. -/
structure Remains (t : Text) : Prop where
  balanced : Balanced t
  chain : List.IsChain (fun a b => follows a b = true) (t ++ [')'])
  points : PointsApart t
  names : NamesApart t

variable {t u v p r : Text} {a b c : Char}

theorem PointsApart.infix (h : PointsApart (u ++ (t ++ v))) : PointsApart t := by
  rintro x y z rfl
  exact h (u ++ x) y (z ++ v) (by simp)

theorem NamesApart.infix (h : NamesApart (u ++ (t ++ v))) : NamesApart t := by
  rintro x c y rfl
  exact h (u ++ x) c (y ++ v) (by simp)

theorem Balanced.of_flat (flat : ∀ c ∈ u, c ≠ '(' ∧ c ≠ ')') (h : Balanced (u ++ t)) :
    Balanced t := by
  induction u with
  | nil => exact h
  | cons c u ih =>
    refine ih (fun d member => flat d (.tail _ member)) ?_
    generalize shape : c :: u ++ t = w at h
    cases h with
    | nil => contradiction
    | char _ _ rest =>
      cases shape
      exact rest
    | group inner rest =>
      injection shape with first
      exact absurd first (flat c (.head _)).1

/-- Balanced texts do not begin with a closing parenthesis. -/
theorem Balanced.head_ne_close (h : Balanced t) : ∀ c ∈ t.head?, c ≠ ')' := by
  intro c head
  cases h with
  | nil => contradiction
  | char _ close _ =>
    cases head
    exact close
  | group _ _ =>
    cases head
    decide

theorem Remains.of_flat (flat : ∀ c ∈ u, c ≠ '(' ∧ c ≠ ')') (h : Remains (u ++ t)) : Remains t := by
  have chain := h.chain
  rw [List.append_assoc] at chain
  refine ⟨h.balanced.of_flat flat, chain.right_of_append, ?_, ?_⟩
  · have points := h.points
    rw [← List.append_nil t] at points
    exact points.infix
  · have names := h.names
    rw [← List.append_nil t] at names
    exact names.infix

/-- A row of characters of a class is read up to its end. -/
theorem Remains.span {kind : Char → Bool} (flat : ∀ c, kind c = true → c ≠ '(' ∧ c ≠ ')')
    (h : Remains r) (start : startsWith kind r = true) :
    ∃ w a rest, r = w ++ a :: rest ∧ (∀ c ∈ w ++ [a], kind c = true) ∧ Remains rest ∧
      ∀ c ∈ rest.head?, follows a c = true ∧ kind c = false ∧ c ≠ ')' := by
  have row : ∀ c ∈ r.takeWhile kind, kind c = true := fun c member =>
    List.all_eq_true.1 List.all_takeWhile c member
  have whole : r.takeWhile kind ++ r.dropWhile kind = r := List.takeWhile_append_dropWhile
  rcases List.eq_nil_or_concat (r.takeWhile kind) with none | ⟨w, a, taken⟩
  · cases r with
    | nil => contradiction
    | cons c r =>
      have head : kind c = true := by simpa [startsWith] using start
      simp [head] at none
  · rw [List.concat_eq_append] at taken
    rw [taken] at row whole
    have remains : Remains (r.dropWhile kind) :=
      Remains.of_flat (fun c member => flat c (row c member)) (by rw [whole]; exact h)
    refine ⟨w, a, r.dropWhile kind, by rw [← List.append_cons] at whole; exact whole.symm, row,
      remains, fun c head => ?_⟩
    obtain ⟨rest, shape⟩ : ∃ rest, r.dropWhile kind = c :: rest := by
      cases dropped : r.dropWhile kind with
      | nil =>
        rw [dropped] at head
        contradiction
      | cons d rest =>
        rw [dropped] at head
        cases head
        exact ⟨rest, rfl⟩
    refine ⟨?_, ?_, remains.balanced.head_ne_close c head⟩
    · have neighbors : r ++ [')'] = w ++ a :: c :: (rest ++ [')']) := by
        rw [← whole, shape]
        simp
      exact List.isChain_iff_forall_rel_of_append_cons_cons.1 h.chain neighbors
    · have stop := startsWith_dropWhile kind r
      rw [shape] at stop
      simpa [startsWith] using stop

theorem flat_of_isAlphanumeric (h : isAlphanumeric a = true) : a ≠ '(' ∧ a ≠ ')' := by
  obtain ⟨_, _, open', close, _⟩ := isAlphanumeric_apart h
  exact ⟨open', close⟩

theorem flat_of_isDigit (a : Char) (h : a.isDigit = true) : a ≠ '(' ∧ a ≠ ')' :=
  flat_of_isAlphanumeric (isAlphanumeric_of_isDigit h)

/-- A numeral is read up to its end: behind its places no second point can follow. -/
theorem Remains.literal (h : Remains r) (start : startsWith Char.isDigit r = true) :
    ∃ (l : Literal) (rest : Text), r = l.text ++ rest ∧ Remains rest ∧
      ∀ c ∈ rest.head?, isOperator c = true := by
  obtain ⟨w, a, rest, rfl, digits, remains, next⟩ := h.span flat_of_isDigit start
  have digit : a.isDigit = true := digits a (by simp)
  -- What follows a row of digits is an operator, if no point.
  have ends {a c : Char} (digit : a.isDigit = true)
      (h : follows a c = true ∧ c.isDigit = false ∧ c ≠ ')') (point : c ≠ '.') :
      isOperator c = true := by
    obtain ⟨follow, other, close⟩ := h
    rw [follows_digit digit] at follow
    simpa [other, close, point] using follow
  have nonempty : w ++ [a] ≠ [] := by simp
  by_cases point : rest.head? = some '.'
  · obtain ⟨r, rfl⟩ : ∃ r, rest = '.' :: r := by
      cases rest with
      | nil => cases point
      | cons c r =>
        cases point
        exact ⟨r, rfl⟩
    have start : startsWith Char.isDigit r = true := by
      have follow := (List.isChain_cons.1 remains.chain).1
      cases r with
      | nil => exact absurd (follow ')' rfl) (by decide)
      | cons c r => exact follow c rfl
    have behind : Remains r := Remains.of_flat (u := ['.']) (by decide) remains
    obtain ⟨w', a', rest, rfl, digits', remains', next'⟩ := behind.span flat_of_isDigit start
    refine ⟨⟨w ++ [a], w' ++ [a'], nonempty, List.forall_mem_append.2 ⟨digits, digits'⟩⟩, rest, ?_,
      remains', fun c head => ?_⟩
    · simp [Literal.text]
    · refine ends (digits' a' (by simp)) (next' c head) ?_
      rintro rfl
      obtain ⟨v, rfl⟩ : ∃ v, rest = '.' :: v := by
        cases rest with
        | nil => cases head
        | cons d v =>
          cases head
          exact ⟨v, rfl⟩
      obtain ⟨d, member, operator⟩ := h.points (w ++ [a]) (w' ++ [a']) v (by simp)
      have alphanumeric := isAlphanumeric_apart (isAlphanumeric_of_isDigit (digits' d member))
      simp [isOperator, alphanumeric.1, alphanumeric.2.1] at operator
  · refine ⟨⟨w ++ [a], [], nonempty, by simpa using digits⟩, rest, ?_, remains, fun c head => ?_⟩
    · simp [Literal.text]
    · refine ends digit (next c head) ?_
      rintro rfl
      exact point head

/-- A name is read up to its end. -/
theorem Remains.name (h : Remains r) (start : startsWith Char.isAlpha r = true) :
    ∃ x rest, r = x ++ rest ∧ x ≠ [] ∧ Letters x ∧ Remains rest ∧
      ∀ c ∈ rest.head?, c.isDigit = true ∨ c = '(' ∨ isOperator c = true := by
  have flat (c : Char) (letter : c.isAlpha = true) : c ≠ '(' ∧ c ≠ ')' :=
    flat_of_isAlphanumeric (isAlphanumeric_of_isAlpha letter)
  obtain ⟨w, a, rest, rfl, letters, remains, next⟩ := h.span flat start
  refine ⟨w ++ [a], rest, by simp, by simp, letters, remains, fun c head => ?_⟩
  obtain ⟨follow, other, close⟩ := next c head
  rw [follows_letter (letters a (by simp))] at follow
  simpa [isAlphanumeric, other, close, or_assoc] using follow

/-- A group is read up to its end. -/
theorem Remains.group (h : Remains ('(' :: r)) :
    ∃ inner rest, r = inner ++ ')' :: rest ∧ Remains inner ∧
      (∀ c ∈ (inner ++ [')']).head?, fitsAfterBinary c = true) ∧ Remains rest ∧
      ∀ c ∈ rest.head?, isOperator c = true := by
  obtain ⟨balanced, chain, points, names⟩ := h
  generalize shape : '(' :: r = t at balanced
  cases balanced with
  | nil => contradiction
  | char open' =>
    injection shape with first
    exact absurd first.symm open'
  | @group inner rest balanced balanced' =>
    injection shape with _ same
    subst same
    have whole : '(' :: (inner ++ ')' :: rest) ++ [')'] =
        ['('] ++ (inner ++ [')']) ++ (rest ++ [')']) := by simp
    have chain' := chain
    rw [whole] at chain'
    have behind : '(' :: (inner ++ ')' :: rest) = '(' :: inner ++ [')'] ++ (rest ++ []) := by simp
    refine ⟨inner, rest, rfl, ⟨balanced, chain'.left_of_append.right_of_append, ?_, ?_⟩,
      fun c head => ?_, ⟨balanced', chain'.right_of_append, ?_, ?_⟩, fun c head => ?_⟩
    · exact PointsApart.infix (u := ['(']) (v := ')' :: rest) points
    · exact NamesApart.infix (u := ['(']) (v := ')' :: rest) names
    · have first : List.IsChain (fun a b => follows a b = true) ('(' :: (inner ++ [')'])) :=
        chain'.left_of_append
      exact (List.isChain_cons.1 first).1 c head
    · rw [behind] at points
      exact points.infix
    · rw [behind] at names
      exact names.infix
    · obtain ⟨v, rfl⟩ : ∃ v, rest = c :: v := by
        cases rest with
        | nil => contradiction
        | cons d v =>
          cases head
          exact ⟨v, rfl⟩
      have neighbors : '(' :: (inner ++ ')' :: c :: v) ++ [')'] =
          '(' :: inner ++ ')' :: c :: (v ++ [')']) := by simp
      have follow : follows ')' c = true :=
        List.isChain_iff_forall_rel_of_append_cons_cons.1 chain neighbors
      have name := names ('(' :: inner) c v (by simp)
      have shape : follows ')' c = (isOperator c || c == ')' || c.isAlpha) := rfl
      rw [shape, name] at follow
      simpa [balanced'.head_ne_close c rfl] using follow

/-- A sign that can stand before an operand, or none, is read; an operand follows. -/
theorem Remains.lead (h : Remains r) (head : ∀ c ∈ (r ++ [')']).head?, fitsAfterBinary c = true) :
    ∃ lead rest, r = lead ++ rest ∧ IsLead lead ∧ Remains rest ∧
      ∀ c ∈ (rest ++ [')']).head?, fitsAfterSign c = true := by
  cases r with
  | nil => exact absurd (head ')' rfl) (by decide)
  | cons c r =>
    have first := head c rfl
    by_cases sign : isSign c = true
    · have flat : ∀ d ∈ [c], d ≠ '(' ∧ d ≠ ')' := by
        rintro d member
        rw [List.mem_singleton.1 member]
        constructor <;> rintro rfl <;> contradiction
      refine ⟨[c], r, rfl, isLead_of_isSign sign, h.of_flat flat, fun d next => ?_⟩
      rw [← follows_sign (b := d) sign]
      exact (List.isChain_cons.1 h.chain).1 d next
    · refine ⟨[], c :: r, rfl, .inl rfl, h, fun d next => ?_⟩
      cases next
      simpa [fitsAfterBinary, fitsAfterSign, sign] using first

/-- An operator is read, and the sign behind it; an operand follows. -/
theorem Remains.joint (h : Remains (c :: r)) (operator : isOperator c = true) :
    ∃ j rest, c :: r = j ++ rest ∧ IsJoint j ∧ Remains rest ∧ rest.length < (c :: r).length ∧
      ∀ c ∈ (rest ++ [')']).head?, fitsAfterSign c = true := by
  have flat : ∀ d ∈ [c], d ≠ '(' ∧ d ≠ ')' := by
    intro d member
    rw [List.mem_singleton.1 member]
    constructor <;> rintro rfl <;> contradiction
  have behind : Remains r := h.of_flat flat
  have next := (List.isChain_cons.1 h.chain).1
  by_cases sign : isSign c = true
  · obtain ⟨o, rank, rfl⟩ := exists_operator_of_isSign sign
    refine ⟨[o.symbol], r, rfl, .sum rank, behind, by simp, fun d head => ?_⟩
    rw [← follows_sign (b := d) sign]
    exact next d head
  · have binary : isBinaryOnly c = true := by simpa [isOperator, sign] using operator
    obtain ⟨o, rank, rfl⟩ := exists_operator_of_isBinaryOnly binary
    obtain ⟨lead, rest, rfl, isLead, remains, head⟩ := behind.lead fun d head => by
      rw [← follows_binary (b := d) binary]
      exact next d head
    have shorter : rest.length < (o.symbol :: (lead ++ rest)).length := by
      rw [List.length_cons, List.length_append]
      omega
    exact ⟨o.symbol :: lead, rest, rfl, .signed rank isLead, remains, shorter, head⟩

theorem IsAtom.ne_nil (atom : IsAtom t) : t ≠ [] := by
  cases atom with
  | literal l => exact l.isRow.1
  | name nonempty _ => exact nonempty
  | applied _ nonempty _ => simp [nonempty]

/-- What remains is written behind all that an operand can follow, where it is shorter than this. -/
def WritesBelow (n : Nat) : Prop :=
  ∀ {p r : Text}, r.length < n → Remains r → Written IsAtom Letters .front p →
    (∀ c ∈ (r ++ [')']).head?, fitsAfterSign c = true) → Written IsAtom Letters .whole (p ++ r)

namespace WritesBelow

variable {rest : Text} {n : Nat} (below : WritesBelow n)

include below

/-- Behind an operand the expression ends, or another operand is joined to this one. -/
theorem behind (operand : Written IsAtom Letters .whole p) (h : Remains r)
    (next : ∀ c ∈ r.head?, isOperator c = true) (shorter : r.length < n) :
    Written IsAtom Letters .whole (p ++ r) := by
  cases r with
  | nil => rwa [List.append_nil]
  | cons c r =>
    obtain ⟨j, rest, shape, joint, remains, less, head⟩ := h.joint (next c rfl)
    rw [shape, ← List.append_assoc]
    exact below (less.trans shorter) remains (.joint operand joint) head

theorem atom (front : Written IsAtom Letters .front p) (atom : IsAtom t) (h : Remains rest)
    (next : ∀ c ∈ rest.head?, isOperator c = true) (size : (t ++ rest).length ≤ n) :
    Written IsAtom Letters .whole (p ++ (t ++ rest)) := by
  have some := List.length_pos_iff.2 atom.ne_nil
  rw [List.length_append] at size
  rw [← List.append_assoc]
  exact below.behind (.atom front atom) h next (by omega)

/-- A group is an expression of its own. -/
theorem group {x inner : Text} (front : Written IsAtom Letters .front p) (letters : Letters x)
    (h : Remains inner) (start : ∀ c ∈ (inner ++ [')']).head?, fitsAfterBinary c = true)
    (h' : Remains rest) (next : ∀ c ∈ rest.head?, isOperator c = true)
    (size : (x ++ '(' :: (inner ++ ')' :: rest)).length ≤ n) :
    Written IsAtom Letters .whole (p ++ (x ++ '(' :: (inner ++ ')' :: rest))) := by
  obtain ⟨lead, rest', rfl, sign, remains, head⟩ := h.lead start
  simp only [List.length_append, List.length_cons] at size
  have inside : Written IsAtom Letters .whole (lead ++ rest') :=
    below (by omega) remains (.lead sign) head
  have whole := below.behind (.group front letters inside) h' next (by omega)
  simp only [List.append_assoc, List.cons_append, List.nil_append] at whole ⊢
  exact whole

end WritesBelow

/-- An operand is read, and an operator or the end follows. The induction is on the length of what
is left, since a group is an expression of its own. -/
theorem Remains.written {r : Text} (h : Remains r) (front : Written IsAtom Letters .front p)
    (head : ∀ c ∈ (r ++ [')']).head?, fitsAfterSign c = true) :
    Written IsAtom Letters .whole (p ++ r) := by
  induction size : r.length using Nat.strongRecOn generalizing p r with
  | ind n ih =>
  have below : WritesBelow n := fun shorter h front head => ih _ shorter h front head rfl
  cases r with
  | nil => exact absurd (head ')' rfl) (by decide)
  | cons c r =>
    have first : c = '(' ∨ c.isDigit = true ∨ c.isAlpha = true := by
      simpa [fitsAfterSign, isAlphanumeric] using head c rfl
    rcases first with rfl | digit | letter
    · obtain ⟨inner, rest, rfl, remains, start, remains', next⟩ := h.group
      have nameless : Letters [] := fun _ none => absurd none List.not_mem_nil
      exact below.group (x := []) front nameless remains start remains' next size.le
    · obtain ⟨l, rest, shape, remains, next⟩ := h.literal (by simpa [startsWith] using digit)
      rw [shape] at size ⊢
      exact below.atom front (.literal l) remains next size.le
    · obtain ⟨x, rest, shape, nonempty, letters, remains, next⟩ :=
        h.name (by simpa [startsWith] using letter)
      rw [shape] at size ⊢
      cases rest with
      | nil => exact below.atom front (.name nonempty letters) remains (fun _ none => by cases none) size.le
      | cons d rest =>
        rcases next d rfl with digit | rfl | operator
        · obtain ⟨l, rest', shape', remains', next'⟩ :=
            remains.literal (by simpa [startsWith] using digit)
          rw [shape', ← List.append_assoc x] at size ⊢
          exact below.atom front (.applied l nonempty letters) remains' next' size.le
        · obtain ⟨inner, rest, rfl, remains, start, remains', next'⟩ := remains.group
          exact below.group front letters remains start remains' next' size.le
        · refine below.atom front (.name nonempty letters) remains ?_ size.le
          intro e head
          cases head
          exact operator

/-- An accepted expression without names behind groups is written as the grammar says. -/
theorem Accepted.isWritten (h : Accepted t) (names : NamesApart t) :
    Written IsAtom Letters .whole t := by
  have chain := List.isChain_cons.1 h.isChain
  have balanced : Balanced t := by
    rcases balanced_or_closes (openAtEnd_of_check h.checked) with ⟨_, balanced⟩ | ⟨_, _, _, _, no, _⟩
    · exact balanced
    · contradiction
  have remains : Remains t := ⟨balanced, chain.2, pointsApart_of_check h.checked, names⟩
  obtain ⟨lead, rest, rfl, sign, remains, head⟩ := remains.lead chain.1
  exact remains.written (.lead sign) head

variable {atom atom' call call' : Text → Prop} {stage : Stage}

theorem not_isAlpha_of_isOperator (operator : isOperator c = true) : c.isAlpha = false := by
  obtain ⟨o, rfl⟩ := isOperator_iff.1 operator
  cases o <;> decide

theorem IsLead.isOperator {lead : Text} (sign : IsLead lead) :
    ∀ c ∈ lead, isOperator c = true := by
  rcases sign with rfl | rfl | rfl <;> decide

theorem IsLead.not_isAlpha {lead : Text} (sign : IsLead lead) : ∀ c ∈ lead, c.isAlpha = false :=
  fun c member => not_isAlpha_of_isOperator (sign.isOperator c member)

theorem IsJoint.isOperator (h : IsJoint t) : ∀ c ∈ t, isOperator c = true := by
  have symbol (operator : Operator) : Reckoner.isOperator operator.symbol = true :=
    isOperator_iff.2 ⟨operator, rfl⟩
  cases h with
  | sum _ => exact List.forall_mem_singleton.2 (symbol _)
  | signed _ sign => exact List.forall_mem_cons.2 ⟨symbol _, sign.isOperator⟩

/-- Where an operand has to follow, an operator stands before it, if anything. -/
theorem Written.last_of_front (h : Written atom call .front p) :
    ∀ c ∈ p.getLast?, isOperator c = true := by
  cases h with
  | lead sign => exact fun c last => sign.isOperator c (List.mem_of_getLast? last)
  | @joint s j _ joint =>
    intro c last
    have nonempty : j ≠ [] := by cases joint <;> simp
    rw [List.getLast?_append, List.getLast?_eq_some_getLast nonempty] at last
    exact joint.isOperator c (List.mem_of_getLast? (by
      rw [List.getLast?_eq_some_getLast nonempty]
      exact last))

/-- An operand can begin behind this text. -/
def Leads (t : Text) : Prop := ∀ c ∈ t.getLast?, c = '(' ∨ isOperator c = true

theorem Leads.not_isAlpha (h : Leads t) : ∀ c ∈ t.getLast?, c.isAlpha = false := by
  intro c last
  rcases h c last with rfl | operator
  · decide
  · exact not_isAlpha_of_isOperator operator

/-- Behind an opening parenthesis an operand can begin where it can in the group. -/
theorem Leads.behind_open (h : Leads u) (t : Text) : Leads (t ++ '(' :: u) := by
  intro c last
  rw [List.getLast?_append, List.getLast?_cons] at last
  cases behind : u.getLast? with
  | none =>
    rw [behind] at last
    cases last
    exact .inl rfl
  | some d =>
    rw [behind] at last
    cases last
    exact h _ behind

theorem Written.leads (h : Written atom call .front p) : Leads p :=
  fun c last => .inr (h.last_of_front c last)

/-- The operands and names of an expression are of any kind that can be told from where they
stand. -/
theorem Written.restrict (h : Written atom call stage t)
    (atoms : ∀ p f q, t = p ++ (f ++ q) → Leads p → atom f → atom' f)
    (calls : ∀ p x q, t = p ++ (x ++ '(' :: q) → Leads p → call x → call' x) :
    Written atom' call' stage t := by
  induction h with
  | lead sign => exact .lead sign
  | @atom p f front h ih =>
    refine .atom (ih (fun u g q shape => ?_) fun u x q shape => ?_)
      (atoms p f [] (by simp) front.leads h)
    · exact atoms u g (q ++ f) (by rw [shape]; simp)
    · exact calls u x (q ++ f) (by rw [shape]; simp)
  | @group p x t front h inner ih ih' =>
    refine .group (ih (fun u g q shape => ?_) fun u y q shape => ?_)
      (calls p x (t ++ [')']) rfl front.leads h)
      (ih' (fun u g q shape leads => ?_) fun u y q shape leads => ?_)
    · exact atoms u g (q ++ (x ++ '(' :: (t ++ [')']))) (by rw [shape]; simp)
    · exact calls u y (q ++ (x ++ '(' :: (t ++ [')']))) (by rw [shape]; simp)
    · refine atoms (p ++ x ++ '(' :: u) g (q ++ [')']) (by rw [shape]; simp) ?_
      exact leads.behind_open _
    · refine calls (p ++ x ++ '(' :: u) y (q ++ [')']) (by rw [shape]; simp) ?_
      exact leads.behind_open _
  | @joint s j _ h ih =>
    refine .joint (ih (fun u g q shape => ?_) fun u x q shape => ?_) h
    · exact atoms u g (q ++ j) (by rw [shape]; simp)
    · exact calls u x (q ++ j) (by rw [shape]; simp)

end Reckoner
