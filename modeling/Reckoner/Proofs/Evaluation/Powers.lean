import Reckoner.Proofs.Evaluation.Precedence

set_option autoImplicit false

namespace Reckoner

open Double

inductive PowerOperand
  | literal (l : Literal)
  | group (lead : Lead) (l : Literal)

namespace PowerOperand

/-- The operand as a part of expressions. -/
def atom : PowerOperand → Atom
  | literal l => .literal l
  | group lead l => .group (.first lead (.first (.atom (.literal l))))

def value : PowerOperand → Float
  | literal l => l.value
  | group lead l => applyLead lead.1 l.value

end PowerOperand

inductive Powers
  | operand (a : PowerOperand)
  | next (c : Powers) (operator : OperatorOf .power) (a : PowerOperand)

namespace Powers

def text : Powers → Text
  | operand a => a.atom.text
  | next c operator a => c.text ++ operator.1.symbol :: a.atom.text

def fold : Powers → Except Fault Float
  | operand a => .ok a.value
  | next c operator a => do
    let x ← c.fold
    combine operator.1 x a.value

/-- The chain from left to right without the signs of its intermediate values; and whether an odd
number of them was negative. -/
def setAside : Powers → Except Fault (Bool × Float)
  | operand a => .ok (false, a.value)
  | next c operator a => do
    let state ← c.setAside
    let z ← combine operator.1 state.2 a.value
    return (state.1 != decide (z < 0), ofMagnitude false (magnitude z))

/-- The evaluation has the value of the left fold, if that has one. -/
def FoldsLeft (context : Context) (c : Powers) : Prop :=
  ∀ v, c.fold = .ok v → ∃ u, (solveExpression context c.text).outcome = .ok u ∧ (u == v) = true

/-- No value between two operations is negative. -/
def Nonnegative : Powers → Prop
  | operand _ => True
  | next (operand _) _ _ => True
  | next (next c operator a) _ _ =>
    (next c operator a).Nonnegative ∧ ∀ v, (next c operator a).fold = .ok v → ¬ v < 0

/-- The chain of links that the text is once its groups are solved. -/
def links (context : Context) : Powers → Except Failure (List Link)
  | operand a => (Factor.atom a.atom).links context none []
  | next c operator a => do
    let ls ← c.links context
    let more ← (Factor.atom a.atom).links context (some operator.1) []
    return ls ++ more

end Powers

def withSign (negative : Bool) (x : Float) : Float := if negative then -x else x

variable {context : Context}

theorem PowerOperand.flat (context : Context) (a : PowerOperand) :
    ∃ o, a.atom.flat context = .ok o ∧ Holds context o a.value := by
  have whole : Matches (Holds context) (a.atom.flat context) (.ok a.value : Except Fault Float) := by
    cases a with
    | literal l => exact (Atom.literal l).matches_eval trivial trivial
    | group lead l =>
      exact (Atom.group (.first lead (.first (.atom (.literal l))))).matches_eval trivial trivial
  obtain ⟨o, _, flat, same, holds⟩ | ⟨_, _, _, wrong⟩ := whole.cases
  · cases same
    exact ⟨o, flat, holds⟩
  · contradiction

theorem Powers.flattens (c : Powers) :
    Flattens context c.text ((c.links context).map linksText) := by
  induction c with
  | operand a => exact (Factor.atom a.atom).flattens none isLead_nil
  | next c operator a ih =>
    exact ih.links ((Factor.atom a.atom).flattens (some operator.1) isLead_nil)

/-- A link with the sign that was set aside in its lead. -/
structure Aside (context : Context) (c : Link) (state : Bool × Float) : Prop where
  sign : IsLead c.lead
  side : (c.lead == ['-']) = state.1
  operand : Holds context c.operand state.2

/-- What the links of a chain come to. -/
def SetAside (context : Context) (a : List Link) (state : Bool × Float) : Prop :=
  ∃ c, a = [c] ∧ Aside context c state

theorem Aside.denotes {c : Link} {state : Bool × Float} (h : Aside context c state) :
    ∃ x, Denotes context (markValue c.body) x ∧ Alike x (withSign state.1 state.2) := by
  obtain ⟨_, x, value, alike⟩ := h.operand
  have same : withSign state.1 state.2 = applyLead c.lead state.2 := by
    unfold withSign applyLead
    rw [← h.side]
    exact if_congr (by rw [beq_iff_eq]) rfl rfl
  rw [same]
  exact ⟨_, value.markValue h.sign, alike_applyLead alike c.lead⟩

theorem lead_valueSign {lead : Text} (sign : IsLead lead) (x : Float) :
    (reduceSigns (lead ++ valueSign x) == ['-']) = ((lead == ['-']) != decide (x < 0)) := by
  have signs : valueSign x = if x < 0 then ['-'] else [] := by
    unfold valueSign signText
    by_cases zero : magnitude x = 0
    · rw [if_pos zero, if_neg fun less => (lt_zero_iff.1 less).2 zero]
    · rw [if_neg zero]
      exact if_congr ⟨fun negative => lt_zero_iff.2 ⟨negative, zero⟩,
        fun less => (lt_zero_iff.1 less).1⟩ rfl rfl
  rw [signs]
  by_cases less : x < 0
  · rw [if_pos less, decide_eq_true less]
    rcases sign with rfl | rfl | rfl <;> rfl
  · rw [if_neg less, decide_eq_false less]
    rcases sign with rfl | rfl | rfl <;> rfl

/-- One more operation: its sign goes to the lead, its size becomes the operand. -/
theorem SetAside.next {ls : List Link} {r : Except Fault (Bool × Float)} {o : Text} {y : Float}
    (operator : OperatorOf .power) (before : Matches (SetAside context) (pass context .power ls) r)
    (operand : Holds context o y) :
    Matches (SetAside context) (pass context .power (ls ++ [⟨some operator.1, [], o⟩]))
      (r.bind fun state => (combine operator.1 state.2 y).bind fun z =>
        .ok (state.1 != decide (z < 0), ofMagnitude false (magnitude z))) := by
  obtain ⟨_, state, solved, rfl, c, rfl, h⟩ | ⟨e, e', failed, rfl⟩ := before.cases
  · obtain ⟨number, x', left, alike⟩ := h.operand
    obtain ⟨number', y', right, alike'⟩ := operand
    have value := solve_of_denotes operator.1 left right isLead_nil isLead_nil
    rw [List.nil_append, applyLead_nil, applyLead_nil] at value
    have notQuotient : operator.1 = .divide → magnitude y' ≠ 0 := by
      intro quotient
      exact absurd operator.2 (by rw [quotient]; decide)
    have results := matches_combine (f := id) (fun _ => rfl)
      (agrees_operate operator.1 alike alike' notQuotient)
    have link : (Link.mk (some operator.1) [] o).glue = some operator.1 := rfl
    rw [pass_continue solved, passLinks_joined link operator.2]
    unfold Link.body
    rw [value]
    refine results.bind ?_
    rintro z z' ⟨notNan, same⟩
    change Alike z z' at same
    have size := denotes_sizeText context (isNaN_eq_false_iff.1 notNan)
    change SetAside context [c.splice z] _
    rw [same.isNaN_eq, isNaN_eq_false_iff] at notNan
    refine ⟨_, rfl, h.sign.reduceSigns_append (isLead_valueSign z), ?_, ?_, _, size, ?_⟩
    · change (reduceSigns (c.lead ++ valueSign z) == ['-']) = _
      rw [lead_valueSign h.sign, h.side, decide_eq_decide.2 same.lt_zero_iff]
    · rw [isNaN_eq_false_iff, magnitude_ofMagnitude _ notNan]
      exact notNan
    · rw [same.magnitude_eq]
      exact Alike.refl _
  · rw [pass_fails failed]
    trivial

theorem Powers.part (c : Powers) {ls : List Link} (links : c.links context = .ok ls) :
    Part none [] ls := by
  induction c generalizing ls with
  | operand a => exact (Factor.atom a.atom).part isLead_nil none_front links
  | next c operator a ih =>
    obtain ⟨b, left, rest⟩ := bind_eq_ok links
    obtain ⟨b', right, same⟩ := bind_eq_ok rest
    cases same
    exact (ih left).append ((Factor.atom a.atom).part isLead_nil
      (front_of_rank operator (by decide)) right) nofun

/-- The links of a chain come to its value with the sign set aside. -/
theorem Powers.matches_setAside (context : Context) (c : Powers) :
    ∃ ls, c.links context = .ok ls ∧
      Matches (SetAside context) (pass context .power ls) c.setAside := by
  induction c with
  | operand a =>
    obtain ⟨o, flat, holds⟩ := a.flat context
    refine ⟨[⟨none, [], o⟩], ?_, ⟨_, rfl, isLead_nil, rfl, holds⟩⟩
    change (a.atom.flat context).bind _ = _
    rw [flat]
    rfl
  | next c operator a ih =>
    obtain ⟨ls, links, whole⟩ := ih
    obtain ⟨o, flat, holds⟩ := a.flat context
    refine ⟨ls ++ [⟨some operator.1, [], o⟩], ?_, SetAside.next operator whole holds⟩
    have last : (Factor.atom a.atom).links context (some operator.1) [] =
        .ok [⟨some operator.1, [], o⟩] := by
      change (a.atom.flat context).bind _ = _
      rw [flat]
      rfl
    change (c.links context).bind (fun ls => (Except.bind _ _)) = _
    rw [links, last]
    rfl

/-- The evaluation of a chain sets signs aside. -/
theorem Powers.solveExpression_setAside (context : Context) (c : Powers) :
    Matches (fun u state => Alike u (withSign state.1 state.2))
      (solveExpression context c.text).outcome c.setAside := by
  obtain ⟨ls, links, whole⟩ := c.matches_setAside context
  rw [c.flattens.solveExpression, links]
  change Matches _ ((solveSegment context (linksText ls)).outcome.bind _) _
  rw [solveSegment_links (c.part links)]
  have products : Matches (SetAside context) (terms context ls) c.setAside :=
    whole.bind_left fun a state h => by
      obtain ⟨k, rfl, aside⟩ := h
      exact ⟨[k], rfl, k, rfl, aside⟩
  have sums : Matches (Aside context) ((terms context ls).bind (total context)) c.setAside :=
    products.bind_left fun a state h => by
      obtain ⟨k, rfl, aside⟩ := h
      exact ⟨k, rfl, aside⟩
  have marked : Matches (fun o state => ∃ x, Denotes context o x ∧
      Alike x (withSign state.1 state.2)) (Except.map (fun c => markValue c.body)
        (((terms context ls).bind (total context)).mapError Failure.fault)) c.setAside :=
    (sums.mapError Failure.fault).map_left fun k state h => h.denotes
  refine marked.bind_left ?_
  rintro o state ⟨x, value, alike⟩
  have solved := (value.resolve isLead_nil).1
  rw [List.nil_append] at solved
  exact ⟨x, by rw [solved]; rfl, alike⟩

theorem PowerOperand.number (a : PowerOperand) : a.value.isNaN = false := by
  cases a with
  | literal l => exact l.number
  | group lead l => exact (isNaN_applyLead lead.1 l.value).trans l.number

theorem Powers.number {c : Powers} {v : Float} (h : c.fold = .ok v) : v.isNaN = false := by
  cases c with
  | operand a =>
    cases h
    exact a.number
  | next c operator a =>
    obtain ⟨x, _, solved⟩ := bind_eq_ok h
    exact combine_number solved

/-- Setting signs aside does no harm to the value of the left fold. -/
def Powers.Sound (c : Powers) : Prop :=
  ∀ v, c.fold = .ok v → ∃ state, c.setAside = .ok state ∧ Alike (withSign state.1 state.2) v

theorem Powers.sound_iff (context : Context) (c : Powers) : c.Sound ↔ c.FoldsLeft context := by
  have evaluated := c.solveExpression_setAside context
  constructor
  · intro sound v value
    obtain ⟨state, same, alike⟩ := sound v value
    rw [same] at evaluated
    obtain ⟨u, _, solved, rest, first⟩ | ⟨_, _, _, wrong⟩ := evaluated.cases
    · cases rest
      have both := first.trans alike
      exact ⟨u, solved, both.beq (by rw [both.isNaN_eq, Powers.number value])⟩
    · contradiction
  · intro folds v value
    obtain ⟨u, solved, same⟩ := folds v value
    rw [solved] at evaluated
    obtain ⟨_, state, rest, after, first⟩ | ⟨_, _, wrong, _⟩ := evaluated.cases
    · cases rest
      exact ⟨state, after, first.symm.trans (alike_of_beq same)⟩
    · contradiction

/-- The size of an intermediate value has no sign. -/
theorem Powers.size_nonnegative {c : Powers} {operator : OperatorOf .power} {a : PowerOperand}
    {state : Bool × Float} (h : (next c operator a).setAside = .ok state) : ¬ state.2 < 0 := by
  obtain ⟨before, _, rest⟩ := bind_eq_ok h
  obtain ⟨z, solved, same⟩ := bind_eq_ok rest
  have notNan := isNaN_eq_false_iff.1 (combine_number solved)
  cases same
  intro less
  have negative := (lt_zero_iff.1 less).1
  rw [isNegative_ofMagnitude _ notNan] at negative
  contradiction

theorem withSign_eq_applyLead (x y : Float) :
    withSign (decide (x < 0)) y = applyLead (valueSign x) y := by
  have side := lead_valueSign isLead_nil x
  rw [List.nil_append, (isLead_valueSign x).reduced] at side
  have sign : (valueSign x = ['-']) ↔ decide (x < 0) = true := by
    rw [← beq_iff_eq, side]
    cases decide (x < 0) <;> decide
  unfold withSign applyLead
  exact if_congr sign.symm rfl rfl

theorem magnitude_withSign (negative : Bool) (x : Float) :
    magnitude (withSign negative x) = magnitude x := by
  cases negative with
  | false => rfl
  | true => exact magnitude_neg x

/-- Powers of zero and roots with the index zero are zero, if they are anything. -/
theorem magnitude_of_combine_zero {operator : OperatorOf .power} {x y w : Float}
    (zero : magnitude x = 0) (number : y.isNaN = false) (solved : combine operator.1 x y = .ok w) :
    magnitude w = 0 := by
  obtain ⟨operator, power⟩ := operator
  unfold combine at solved
  cases operator with
  | root =>
    change (root x y).bind _ = _ at solved
    rw [root_of_zero_index zero number] at solved
    contradiction
  | power =>
    change (Reckoner.power x y).bind _ = _ at solved
    by_cases none : magnitude y = 0
    · rw [power_of_zero_exponent (isNaN_of_zero zero) none, if_pos (beq_zero_eq zero)] at solved
      contradiction
    · rw [power_of_zero_base zero number none] at solved
      split at solved
      · cases solved
        decide
      · contradiction
  | _ => exact absurd power (by decide)

/-- No sign is set aside that could still matter. -/
def Powers.Settled (c : Powers) : Prop :=
  ∀ state v, c.setAside = .ok state → c.fold = .ok v →
    (state.1 = false ∧ Alike state.2 v) ∨ (magnitude state.2 = 0 ∧ magnitude v = 0)

theorem Powers.settled_operand (a : PowerOperand) : (operand a).Settled := by
  intro state v aside value
  cases aside
  cases value
  exact .inl ⟨rfl, Alike.refl _⟩

theorem Powers.Sound.settled {c : Powers} {operator : OperatorOf .power} {a : PowerOperand}
    (sound : (c.next operator a).Sound)
    (positive : ∀ v, (c.next operator a).fold = .ok v → ¬ v < 0) :
    (c.next operator a).Settled := by
  intro state v aside value
  obtain ⟨_, same, alike⟩ := sound v value
  rw [aside] at same
  cases same
  by_cases zero : magnitude v = 0
  · right
    rw [← magnitude_withSign state.1, alike.magnitude_eq]
    exact ⟨zero, zero⟩
  · left
    have size := Powers.size_nonnegative aside
    obtain ⟨negative, x⟩ := state
    cases negative with
    | false => exact ⟨rfl, alike⟩
    | true =>
      obtain whole | zeros := alike
      · change -x = v at whole
        have notNan := isNaN_eq_false_iff.1 (Powers.number value)
        have nonzero : magnitude x ≠ 0 := by rwa [← magnitude_neg, whole]
        have sign : isNegative x = true := by
          have flipped := isNegative_neg notNan
          rw [← whole, neg_neg] at flipped
          have plain : isNegative v = false := by
            rw [Bool.eq_false_iff]
            exact fun negative => positive v value (lt_zero_iff.2 ⟨negative, zero⟩)
          rw [flipped, whole, plain]
          rfl
        exact absurd (lt_zero_iff.2 ⟨sign, nonzero⟩) size
      · exact absurd zeros.2 zero

/-- The next operation does no harm where no sign is set aside. -/
theorem Powers.Settled.next {c : Powers} (settled : c.Settled) (sound : c.Sound)
    (operator : OperatorOf .power) (a : PowerOperand) : (c.next operator a).Sound := by
  intro w value
  obtain ⟨v, before, solved⟩ := bind_eq_ok value
  obtain ⟨state, aside, _⟩ := sound v before
  have cases := settled state v aside before
  have alike : Alike state.2 v := cases.elim (fun h => h.2) .inr
  have notQuotient : operator.1 = .divide → magnitude a.value ≠ 0 := by
    intro quotient
    exact absurd operator.2 (by rw [quotient]; decide)
  have results := matches_combine (f := id) (fun _ => rfl)
    (agrees_operate operator.1 alike (Alike.refl a.value) notQuotient)
  rw [solved] at results
  obtain ⟨z, _, same, rest, number, close⟩ | ⟨_, _, _, wrong⟩ := results.cases
  · cases rest
    change Alike z w at close
    refine ⟨(state.1 != decide (z < 0), ofMagnitude false (magnitude z)), ?_, ?_⟩
    · change c.setAside.bind (fun state => (combine operator.1 state.2 a.value).bind _) = _
      rw [aside]
      change (combine operator.1 state.2 a.value).bind _ = _
      rw [same]
      rfl
    · obtain ⟨plain, _⟩ | ⟨_, zero⟩ := cases
      · rw [plain, Bool.false_bne, withSign_eq_applyLead]
        exact (alike_written number).trans close
      · have none := magnitude_of_combine_zero zero a.number solved
        refine .inr ⟨?_, none⟩
        change magnitude (withSign _ (ofMagnitude false (magnitude z))) = 0
        rw [magnitude_withSign, close.magnitude_eq, none]
        decide
  · contradiction

def zeroOperand : PowerOperand := .literal ⟨['0'], [], by decide, by decide⟩

theorem magnitude_zeroOperand : magnitude zeroOperand.value = 0 := by decide +kernel

/-- A negative value is wrong in some continuation: to the power of zero it is one, and then it
gets its sign back. -/
theorem Powers.not_sound_of_negative {c : Powers} {operator : OperatorOf .power}
    {a : PowerOperand} {v : Float} (sound : (c.next operator a).Sound)
    (value : (c.next operator a).fold = .ok v) (less : v < 0) :
    ¬ ((c.next operator a).next ⟨.power, rfl⟩ zeroOperand).Sound := by
  obtain ⟨negative, nonzero⟩ := lt_zero_iff.1 less
  obtain ⟨⟨side, x⟩, aside, alike⟩ := sound v value
  have size := Powers.size_nonnegative aside
  have whole : withSign side x = v := alike.resolve_right fun zeros => nonzero zeros.2
  have number := Powers.number value
  have nonzero' : magnitude x ≠ 0 := by rwa [← magnitude_withSign side, whole]
  have number' : x.isNaN = false := by
    rw [isNaN_eq_false_iff, ← magnitude_withSign side, whole, ← isNaN_eq_false_iff]
    exact number
  cases side with
  | false =>
    change x = v at whole
    exact absurd (whole ▸ less) size
  | true =>
    intro next
    have folded : ((c.next operator a).next ⟨.power, rfl⟩ zeroOperand).fold = .ok 1 := by
      change (c.next operator a).fold.bind _ = _
      rw [value]
      exact combine_power_zero number nonzero magnitude_zeroOperand
    have apart : ((c.next operator a).next ⟨.power, rfl⟩ zeroOperand).setAside =
        .ok (true, ofMagnitude false (magnitude 1)) := by
      change (c.next operator a).setAside.bind _ = _
      rw [aside]
      change (combine .power x zeroOperand.value).bind _ = _
      rw [combine_power_zero number' nonzero' magnitude_zeroOperand]
      rfl
    obtain ⟨_, same, wrong⟩ := next 1 folded
    rw [apart] at same
    cases same
    obtain equal | zeros := wrong
    · exact absurd (congrArg isNegative equal) (by decide)
    · exact absurd zeros.2 (by decide)

theorem Powers.sound_of_nonnegative (c : Powers) (positive : c.Nonnegative) : c.Sound := by
  induction c with
  | operand a =>
    intro v value
    cases value
    exact ⟨_, rfl, Alike.refl _⟩
  | next c operator a ih =>
    cases c with
    | operand b => exact (settled_operand b).next (ih trivial) operator a
    | next d operator' b =>
      have before := ih positive.1
      exact (before.settled positive.2).next before operator a

/-- A chain is folded from left to right where no value between two operations is negative; and
behind a chain that is, every operation is folded as well if and only if the value so far is not
negative. -/
theorem Powers.foldsLeft_iff (context : Context) (c : Powers) :
    (c.Nonnegative → c.FoldsLeft context) ∧
      ∀ operator a v, (c.next operator a).FoldsLeft context → (c.next operator a).fold = .ok v →
        ((∀ operator' a', ((c.next operator a).next operator' a').FoldsLeft context) ↔ ¬ v < 0) := by
  refine ⟨fun positive => (c.sound_iff context).1 (c.sound_of_nonnegative positive), ?_⟩
  intro operator a v folds value
  have sound := (Powers.sound_iff context _).2 folds
  constructor
  · intro all less
    exact Powers.not_sound_of_negative sound value less ((Powers.sound_iff context _).2 (all _ _))
  · intro positive operator' a'
    have settled := sound.settled fun w same => by
      rw [value] at same
      cases same
      exact positive
    exact (Powers.sound_iff context _).1 (settled.next sound operator' a')

def twoOperand : PowerOperand := .literal ⟨['2'], [], by decide, by decide⟩

def zerothPower : Powers := (Powers.operand twoOperand).next ⟨.power, rfl⟩ zeroOperand

theorem Powers.fold_single (a b : PowerOperand) (operator : OperatorOf .power) :
    ((operand a).next operator b).fold = combine operator.1 a.value b.value := rfl

theorem zerothPower_fold : zerothPower.fold = .ok 1 := by
  have nonzero : magnitude twoOperand.value ≠ 0 := by decide +kernel
  rw [zerothPower, Powers.fold_single]
  exact combine_power_zero twoOperand.number nonzero magnitude_zeroOperand

theorem zerothPower_foldsLeft :
    zerothPower.Nonnegative ∧ zerothPower.FoldsLeft ⟨[], .degrees⟩ ∧
      ∀ operator a, (zerothPower.next operator a).FoldsLeft ⟨[], .degrees⟩ := by
  have folds := (Powers.foldsLeft_iff ⟨[], .degrees⟩ zerothPower).1 trivial
  have positive : ¬ (1 : Float) < 0 := by decide
  exact ⟨trivial, folds,
    ((Powers.foldsLeft_iff _ (.operand _)).2 _ _ 1 folds zerothPower_fold).2 positive⟩

end Reckoner
