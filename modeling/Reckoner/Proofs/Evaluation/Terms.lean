import Reckoner.Proofs.Evaluation.Chains
import Reckoner.Proofs.Operation.Alike

set_option autoImplicit false

namespace Reckoner

open Double

variable {context : Context} {l m c : Link} {x y v w : Float} {lead lead' s o : Text}
  {glue glue' : Option Operator} {operator : Operator}

/-- A link that stands for a number with the part of its lead that goes beyond the given one. -/
structure Carries (context : Context) (glue : Option Operator) (lead : Text) (l : Link)
    (v : Float) : Prop where
  glue : l.glue = glue
  number : v.isNaN = false
  value : ∃ s x, IsLead s ∧ l.lead = reduceSigns (lead ++ s) ∧ Denotes context l.operand x ∧
    Alike (applyLead s x) v

theorem carries_operand (value : Denotes context o x) (alike : Alike x v)
    (number : v.isNaN = false) (sign : IsLead lead) :
    Carries context glue lead ⟨glue, lead, o⟩ v := by
  refine ⟨rfl, number, [], x, .inl rfl, ?_, value, alike⟩
  rw [List.append_nil, sign.reduced]

/-- A link that stands for a number with its whole lead. -/
theorem Carries.whole (h : Carries context glue lead l v) (sign : IsLead lead) :
    Carries context glue [] l (applyLead lead v) := by
  obtain ⟨s, x, sign', shape, value, alike⟩ := h.value
  have front := sign.reduceSigns_append sign'
  refine ⟨h.glue, by rw [isNaN_applyLead, h.number], l.lead, x, shape ▸ front, ?_, value, ?_⟩
  · rw [shape, List.nil_append, front.reduced]
  · rw [shape, applyLead_reduceSigns sign sign']
    exact alike_applyLead alike lead

/-- A number written down stands for itself, up to the sign of a zero. -/
theorem alike_written (number : x.isNaN = false) :
    Alike (applyLead (valueSign x) (ofMagnitude false (magnitude x))) x := by
  have notNan := isNaN_eq_false_iff.1 number
  unfold valueSign
  by_cases zero : magnitude x = 0
  · rw [if_pos zero, zero]
    exact .inr ⟨by decide, zero⟩
  · rw [if_neg zero]
    cases sign : isNegative x with
    | false =>
      rw [← sign, ofMagnitude_magnitude notNan, sign]
      exact Alike.refl x
    | true =>
      have whole := ofMagnitude_magnitude notNan
      rw [sign] at whole
      change Alike (-ofMagnitude false (magnitude x)) x
      rw [neg_ofMagnitude false notNan, Bool.not_false, whole]
      exact Alike.refl x

/-- A number other than the negative zero stands for itself when it is written down. -/
theorem written_eq (number : x.isNaN = false) (signed : x ≠ -0) :
    applyLead (valueSign x) (ofMagnitude false (magnitude x)) = x := by
  rcases alike_written number with same | ⟨_, zero⟩
  · exact same
  · have positive : isNegative x = false := by
      rw [Bool.eq_false_iff]
      intro negative
      have sign : isNegative (-0 : Float) = true := by decide
      have size : magnitude (-0 : Float) = 0 := by decide
      exact signed (ext_bits (negative.trans sign.symm) (zero.trans size.symm))
    have sign : isNegative (ofMagnitude false 0) = false := by decide
    have size : magnitude (ofMagnitude false 0) = 0 := by decide
    unfold valueSign
    rw [if_pos zero, applyLead_nil, zero]
    exact ext_bits (sign.trans positive.symm) (size.trans zero.symm)

/-- The value of an operation, spliced into a link, stands for itself with the sign that was there
before. -/
theorem carries_splice (number : x.isNaN = false) (sign : IsLead s)
    (shape : l.lead = reduceSigns (lead ++ s)) (value : Alike (applyLead s x) v) :
    Carries context l.glue lead (l.splice x) v := by
  have written := alike_applyLead (alike_written number) s
  rw [← applyLead_reduceSigns sign (isLead_valueSign x)] at written
  refine ⟨rfl, ?_, reduceSigns (s ++ valueSign x), _,
    sign.reduceSigns_append (isLead_valueSign x), ?_,
    denotes_sizeText context (isNaN_eq_false_iff.1 number), written.trans value⟩
  · rw [← value.isNaN_eq, isNaN_applyLead, number]
  · change reduceSigns (l.lead ++ valueSign x) = _
    rw [shape, reduceSigns_reduceSigns_append, reduceSigns_append_reduceSigns, List.append_assoc]

theorem combine_number (solved : combine operator x y = .ok v) : v.isNaN = false := by
  unfold combine at solved
  obtain ⟨z, _, solved⟩ := bind_eq_ok solved
  split at solved
  · contradiction
  next notNan =>
    cases solved
    simpa using notNan

/-- To the power of zero a number is one, unless it is zero itself. -/
theorem combine_power_zero (number : x.isNaN = false) (nonzero : magnitude x ≠ 0)
    (zero : magnitude y = 0) : combine .power x y = .ok 1 := by
  unfold combine
  change (power x y).bind _ = _
  rw [power_of_zero_exponent number zero, beq_zero_eq_false nonzero]
  rfl

/-- Operations whose results are alike without the check for NaN are so with it. -/
theorem matches_combine {x' y' : Float} {operator' : Operator} {f : Float → Float}
    (keeps : ∀ z, (f z).isNaN = z.isNaN)
    (results : Matches (fun z z' => Alike (f z) z') (operate operator x y)
      (operate operator' x' y')) :
    Matches (fun z z' => z.isNaN = false ∧ Alike (f z) z') (combine operator x y)
      (combine operator' x' y') := by
  unfold combine
  rcases results.cases with ⟨z, z', left, right, alike⟩ | ⟨e, e', left, right⟩
  · rw [left, right]
    have same : z.isNaN = z'.isNaN := by rw [← keeps z, alike.isNaN_eq]
    simp only [bind, Except.bind, same]
    cases nan : z'.isNaN with
    | true => trivial
    | false => exact ⟨by rw [same, nan], alike⟩
  · rw [left, right]
    trivial

/-- The sign of a dividend or of the first factor is the sign of the result. -/
theorem operate_applyLead (product : operator.rank = .product) (sign : IsLead s) (x : Float)
    (divisor : operator = .divide → magnitude y ≠ 0) :
    Matches (fun z z' => Alike (applyLead s z) z') (operate operator x y)
      (operate operator (applyLead s x) y) := by
  rcases sign with rfl | rfl | rfl
  · exact (Agrees.refl _ : Agrees _ _)
  · exact (Agrees.refl _ : Agrees _ _)
  · cases operator with
    | multiply =>
      change Alike (-(x * y)) (-x * y)
      rw [neg_mul]
      exact Alike.refl _
    | divide =>
      have nonzero := divisor rfl
      change Alike (-divide x y) (divide (-x) y)
      have infinite : (-x).isInf = x.isInf := by
        rw [Bool.eq_iff_iff, isInf_iff, isInf_iff, magnitude_neg]
      have nan : -Double.nan = Double.nan := by decide
      unfold divide
      simp only [beq_zero_eq_false nonzero, infinite, Bool.and_false, Bool.false_eq_true, if_false]
      split
      · rw [nan]
        exact Alike.refl _
      · split
        · exact .inr ⟨by decide, by decide⟩
        · rw [neg_div]
          exact Alike.refl _
    | _ => exact absurd product (by decide)

theorem carries_written (number : x.isNaN = false) (value : Alike x v) :
    Carries context none [] ⟨none, valueSign x, sizeText (magnitude x)⟩ v := by
  refine ⟨rfl, by rw [← value.isNaN_eq, number], valueSign x, _, isLead_valueSign x, ?_,
    denotes_sizeText context (isNaN_eq_false_iff.1 number), (alike_written number).trans value⟩
  exact (isLead_valueSign x).reduced.symm

/-- The value of a link behind the lead that it is carried with. -/
theorem Carries.body (h : Carries context glue lead l v) (sign : IsLead lead) :
    ∃ y, Denotes context l.operand y ∧ IsLead l.lead ∧ Alike (applyLead l.lead y) (applyLead lead v)
    := by
  obtain ⟨s, y, sign', shape, value, alike⟩ := h.value
  refine ⟨y, value, ?_, ?_⟩
  · rw [shape]
    exact sign.reduceSigns_append sign'
  · rw [shape, applyLead_reduceSigns sign sign']
    exact alike_applyLead alike lead

/-- A product of links is the product of what they stand for. -/
theorem Carries.product (hc : Carries context glue lead c v) (hm : Carries context glue' lead' m w)
    (sign' : IsLead lead') (product : operator.rank = .product)
    (divisor : operator = .divide → magnitude w ≠ 0) :
    Matches (fun x z => Carries context glue lead (c.splice x) z)
      (Operation.solve context ⟨c.operand, operator, m.body⟩)
      (combine operator v (applyLead lead' w)) := by
  obtain ⟨s, x, sign, shape, left, alike⟩ := hc.value
  obtain ⟨y, right, front, alike'⟩ := hm.body sign'
  have solved := solve_of_denotes operator left right isLead_nil front
  rw [List.nil_append, applyLead_nil] at solved
  have nonzero : operator = .divide → magnitude (applyLead m.lead y) ≠ 0 := by
    intro quotient
    have size : magnitude (applyLead lead' w) = magnitude w := by
      unfold applyLead
      split
      · exact magnitude_neg w
      · rfl
    rw [alike'.magnitude_eq, size]
    exact divisor quotient
  have results := (operate_applyLead product sign x nonzero).trans
    (agrees_operate operator alike alike' nonzero)
  have merged := results.mono fun z z' both => by
    obtain ⟨middle, first, second⟩ := both
    exact first.trans second
  change Matches _ (Operation.solve context ⟨c.operand, operator, m.lead ++ m.operand⟩) _
  rw [solved]
  refine (matches_combine (isNaN_applyLead s) merged).mono ?_
  rintro z z' ⟨number, value⟩
  rw [← hc.glue]
  exact carries_splice number sign shape value

/-- A power of operands is the power of what they stand for. -/
theorem matches_power {o' : Text} (first : operator.rank = .power) (left : Denotes context o x)
    (hv : Alike x v) (right : Denotes context o' y) (hw : Alike y w) (sign : IsLead lead)
    (sign' : IsLead lead') :
    Matches (fun x z => Carries context glue lead (Link.splice ⟨glue, lead, o⟩ x) z)
      (Operation.solve context ⟨o, operator, lead' ++ o'⟩)
      (combine operator v (applyLead lead' w)) := by
  have solved := solve_of_denotes operator left right isLead_nil sign'
  have notQuotient : operator = .divide → magnitude (applyLead lead' y) ≠ 0 := by
    rintro rfl
    exact absurd first (by decide)
  have results := agrees_operate operator hv (alike_applyLead hw lead') notQuotient
  rw [List.nil_append, applyLead_nil] at solved
  rw [solved]
  refine (matches_combine (f := id) (fun _ => rfl) results).mono ?_
  rintro z z' ⟨number, value⟩
  have shape : (Link.mk glue lead o).lead = reduceSigns (lead ++ []) := by
    rw [List.append_nil, sign.reduced]
  exact carries_splice number (.inl rfl) shape value

theorem operate_leadOperator (sign : lead = ['+'] ∨ lead = ['-']) (sign' : IsLead s) (x y : Float) :
    operate (leadOperator (reduceSigns (lead ++ s))) x y =
      operate (leadOperator lead) x (applyLead s y) := by
  rcases sign with rfl | rfl <;> rcases sign' with rfl | rfl | rfl
  · rfl
  · rfl
  · exact congrArg Except.ok (sub_eq_add_neg x y)
  · rfl
  · rfl
  · exact congrArg Except.ok (sub_neg x y).symm

/-- A sum of links is the sum of what they stand for. -/
theorem Carries.sum (hc : Carries context none [] c v) (hm : Carries context none lead m w)
    (sign : lead = ['+'] ∨ lead = ['-']) :
    Matches (fun x z => Carries context none [] ⟨none, valueSign x, sizeText (magnitude x)⟩ z)
      (Operation.solve context ⟨c.body, leadOperator m.lead, m.operand⟩)
      (combine (leadOperator lead) v w) := by
  obtain ⟨x, left, front, alike⟩ := hc.body (.inl rfl)
  obtain ⟨s, y, sign', shape, right, alike'⟩ := hm.value
  have solved := solve_of_denotes (leadOperator m.lead) left right front isLead_nil
  have notQuotient : leadOperator lead = .divide → magnitude (applyLead s y) ≠ 0 := by
    rcases sign with rfl | rfl <;> exact fun no => absurd no (by decide)
  have results := agrees_operate (leadOperator lead) alike alike' notQuotient
  rw [← operate_leadOperator sign sign', ← shape] at results
  change Matches _ (Operation.solve context ⟨c.lead ++ c.operand, leadOperator m.lead, m.operand⟩) _
  rw [List.nil_append, applyLead_nil] at solved
  rw [solved]
  refine (matches_combine (f := id) (fun _ => rfl) results).mono ?_
  rintro z z' ⟨number, value⟩
  exact carries_written number value

/-- A chain that is one link, which stands for a number. -/
def Single (context : Context) (glue : Option Operator) (lead : Text) (a : List Link) (v : Float) :
    Prop :=
  ∃ c, a = [c] ∧ Carries context glue lead c v

/-- A factor behind a solved term multiplies or divides it. -/
theorem Single.product {ls : List Link} {more : List Link} {r r' : Except Fault Float}
    (part : Part glue lead ls) (part' : Part (some operator) lead' more)
    (product : operator.rank = .product) (sign : IsLead lead')
    (left : Matches (Single context glue lead) (terms context ls) r)
    (right : ∀ v, r = .ok v →
      Matches (Single context (some operator) lead') (pass context .power more) r')
    (divisor : ∀ v, r = .ok v → operator = .divide → ∀ w, r' = .ok w → (w == 0) = false) :
    Matches (Single context glue lead) (terms context (ls ++ more))
      (r.bind fun x => r'.bind fun y => combine operator x (applyLead lead' y)) := by
  obtain ⟨l, rest, rfl, _⟩ := part.start
  obtain ⟨m, others, rfl, start, _⟩ := part'.start
  have apart : m.joins .power = false := by simp only [Link.joins, start, product]; rfl
  have powers : pass context .power (l :: rest ++ m :: others) = _ :=
    pass_append (List.cons_ne_nil l rest) apart
  unfold terms at left ⊢
  rw [powers]
  cases before : pass context .power (l :: rest) with
  | error e =>
    rw [before] at left
    obtain ⟨_, _, wrong, _⟩ | ⟨_, e', _, rfl⟩ := left.cases
    · contradiction
    · trivial
  | ok a =>
    rw [before] at left
    obtain ⟨_, v, solved, rfl, c, rfl, hc⟩ | ⟨e, e', failed, rfl⟩ := left.cases
    · obtain ⟨_, w, behind, rfl, d, rfl, hd⟩ | ⟨e, e', behind, rfl⟩ := (right v rfl).cases
      · have nonzero : operator = .divide → magnitude w ≠ 0 := by
          intro quotient zero
          have := divisor v rfl quotient w rfl
          rw [beq_zero_iff.2 zero] at this
          contradiction
        have results := hc.product hd sign product nonzero
        rw [behind]
        change Matches _ (pass context .product (a ++ [d])) _
        rw [pass_continue solved, passLinks_joined hd.glue product]
        exact results.bind_left fun x z h => ⟨_, rfl, _, rfl, h⟩
      · rw [behind]
        trivial
    · cases pass context .power (m :: others) with
      | error e => trivial
      | ok b =>
        change Matches _ (pass context .product (a ++ b)) _
        rw [pass_fails failed]
        trivial

/-- A term behind a solved sum is added or subtracted. -/
theorem Carries.next {ls more : List Link} {r r' : Except Fault Float}
    (part : Part none lead ls) (part' : Part none [operator.symbol] more)
    (sum : operator.rank = .sum)
    (left : Matches (Carries context none []) ((terms context ls).bind (total context)) r)
    (right : ∀ v, r = .ok v →
      Matches (Single context none [operator.symbol]) (terms context more) r') :
    Matches (Carries context none []) ((terms context (ls ++ more)).bind (total context))
      (r.bind fun x => r'.bind fun y => combine operator x y) := by
  have both : Matches _ (terms context (ls ++ more)) _ := terms_append part part'
  have signs : (operator = .add ∨ operator = .subtract) := by
    cases operator <;> first | exact .inl rfl | exact .inr rfl | exact absurd sum (by decide)
  obtain ⟨c, v, solved, rfl, hc⟩ | ⟨e, e', failed, rfl⟩ := left.cases
  · obtain ⟨a, before, whole⟩ := bind_eq_ok solved
    obtain ⟨_, split, _⟩ := part.terms before
    obtain ⟨l, rest, rfl, _⟩ := split.start
    rw [before] at both
    obtain ⟨_, w, behind, rfl, d, rfl, hd⟩ | ⟨e, e', behind, rfl⟩ := (right v rfl).cases
    · rw [behind] at both
      obtain ⟨_, _, joined, rest, rfl⟩ | ⟨_, _, _, wrong⟩ := both.cases
      · cases rest
        have same : leadOperator [operator.symbol] = operator := by
          rcases signs with rfl | rfl <;> rfl
        have lead : [operator.symbol] = ['+'] ∨ [operator.symbol] = ['-'] := by
          rcases signs with rfl | rfl
          · exact .inl rfl
          · exact .inr rfl
        have results := hc.sum hd lead
        rw [same] at results
        rw [joined]
        change Matches _ (total context (l :: _ ++ [d])) (combine operator v w)
        rw [total_snoc (List.cons_ne_nil _ _), whole]
        exact results.map_left fun x z h => h
      · contradiction
    · rw [behind] at both
      obtain ⟨_, _, _, wrong, _⟩ | ⟨_, _, failed, _⟩ := both.cases
      · contradiction
      · rw [failed]
        trivial
  · cases joined : terms context (ls ++ more) with
    | error e => trivial
    | ok ab =>
      rw [joined] at both
      obtain ⟨_, _, here, there, rfl⟩ | ⟨_, _, wrong, _⟩ := both.cases
      · cases here
        obtain ⟨a, before, after⟩ := bind_eq_ok there
        obtain ⟨b, _, rfl⟩ := map_eq_ok after
        rw [before] at failed
        change Matches _ (total context (a ++ b)) _
        rw [total_fails failed]
        trivial
      · contradiction

end Reckoner
