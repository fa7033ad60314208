import Reckoner.Proofs.Double.Alike
import Reckoner.Proofs.Double.One
import Reckoner.Evaluation.Segment
import Reckoner.Proofs.Evaluation.Operand
import Reckoner.Proofs.Text.Numeral

set_option autoImplicit false

namespace Reckoner

open Double

/-- The number with the sign that a lead gives it. -/
def applyLead (lead : Text) (x : Float) : Float := if lead = ['-'] then -x else x

def rowValue? (context : Context) (r : Text) : Option Float :=
  match Numeral.literal? r with
  | some x => some x
  | none =>
    match context.bindings.get? r with
    | some (.number x) => some x
    | _ => none

def operandRow (o : Text) : Text := (stripMarks o).dropWhile isSign

def Letters (t : Text) : Prop := ∀ c ∈ t, c.isAlpha = true

def Letterless (t : Text) : Prop := ∀ c ∈ t, c.isAlpha = false

theorem letterless_symbol (operator : Operator) : Letterless [operator.symbol] := by
  unfold Letterless
  cases operator <;> decide

/-- A row in which no call is seen: there are no letters, or it is a name and not a function's. -/
structure IsTame (r : Text) : Prop where
  row : IsRow r
  silent : Letterless r ∨ (Letters r ∧ Function.ofName? r = none)

/-- An operand in which no call is seen. -/
inductive IsTameOperand : Text → Prop
  | row {r : Text} (h : IsTame r) : IsTameOperand r
  | marked {lead r : Text} (sign : IsLead lead) (h : IsTame r) :
    IsTameOperand (openMark :: (lead ++ (r ++ [closeMark])))

theorem IsTameOperand.operand {o : Text} (h : IsTameOperand o) : IsOperand o := by
  cases h with
  | row h => exact .row h.row
  | marked sign h => exact .marked sign h.row

/-- An operand that stands for a number. -/
structure Denotes (context : Context) (o : Text) (x : Float) : Prop where
  tame : IsTameOperand o
  value : ∃ lead r y, IsLead lead ∧ IsTame r ∧ bareOperand o = lead ++ r ∧
    rowValue? context r = some y ∧ x = applyLead lead y

variable {context : Context} {lead r o t : Text} {x y : Float}

@[simp] theorem applyLead_nil (x : Float) : applyLead [] x = x := rfl

theorem applyLead_reduceSigns {lead lead' : Text} (sign : IsLead lead) (sign' : IsLead lead')
    (x : Float) :
    applyLead (reduceSigns (lead ++ lead')) x = applyLead lead (applyLead lead' x) := by
  rcases sign with rfl | rfl | rfl <;> rcases sign' with rfl | rfl | rfl <;>
    first
    | rfl
    | exact (neg_neg x).symm

theorem isNaN_applyLead (lead : Text) (x : Float) : (applyLead lead x).isNaN = x.isNaN := by
  unfold applyLead
  split
  · rw [Bool.eq_iff_iff, isNaN_iff, isNaN_iff, magnitude_neg]
  · rfl

theorem alike_applyLead (h : Alike x y) (lead : Text) :
    Alike (applyLead lead x) (applyLead lead y) := by
  unfold applyLead
  split
  · exact h.neg
  · exact h

theorem stripMarks_append (t u : Text) : stripMarks (t ++ u) = stripMarks t ++ stripMarks u :=
  List.filter_append ..

theorem stripMarks_row (h : Solid r) : stripMarks r = r := by
  unfold stripMarks
  rw [List.filter_eq_self]
  intro c hc
  have operandChar := h c hc
  simp only [Bool.not_eq_true', Bool.or_eq_false_iff, beq_eq_false_iff_ne]
  constructor <;> rintro rfl <;> exact absurd operandChar (by decide)

theorem stripMarks_signs (signs : ∀ c ∈ t, isSign c = true) : stripMarks t = t := by
  unfold stripMarks
  rw [List.filter_eq_self]
  intro c member
  rcases isSign_iff.1 (signs c member) with rfl | rfl <;> decide

theorem IsLead.signs (sign : IsLead lead) : ∀ c ∈ lead, isSign c = true := by
  rcases sign with rfl | rfl | rfl <;> decide

theorem stripMarks_lead (sign : IsLead lead) : stripMarks lead = lead :=
  stripMarks_signs sign.signs

theorem reduceSigns_append_row (t : Text) (h : IsRow r) :
    reduceSigns (t ++ r) = reduceSigns t ++ r := by
  have unsigned := h.unsigned []
  rw [List.append_nil] at unsigned
  rw [reduceSigns_append_of_unsigned unsigned]
  congr 1
  exact reduced_of_no_signs fun c hc => isSign_of_isOperandChar (h.2 c hc)

theorem IsLead.reduced (sign : IsLead lead) : reduceSigns lead = lead := by
  rcases sign with rfl | rfl | rfl <;> decide

/-- A sign in front of an operand is combined with the operand's own. -/
theorem bareOperand_lead (sign : IsLead lead) (o : Text) :
    bareOperand (lead ++ o) = reduceSigns (lead ++ bareOperand o) := by
  unfold bareOperand
  rw [stripMarks_append, stripMarks_lead sign, reduceSigns_append_reduceSigns]

theorem bareOperand_row (h : IsRow r) : bareOperand r = r := by
  unfold bareOperand
  rw [stripMarks_row h.2]
  exact reduceSigns_append_row [] h

theorem bareOperand_lead_row (sign : IsLead lead) (h : IsRow r) :
    bareOperand (lead ++ r) = lead ++ r := by
  rw [bareOperand_lead sign, bareOperand_row h, reduceSigns_append_row _ h, sign.reduced]

theorem stripMarks_bareOperand (t : Text) : stripMarks (bareOperand t) = bareOperand t := by
  unfold stripMarks
  rw [List.filter_eq_self]
  intro c member
  rcases mem_reduceSigns member with kept | sign
  · exact (List.mem_filter.1 kept).2
  · rcases isSign_iff.1 sign with rfl | rfl <;> decide

theorem stripMarks_markValue (t : Text) : stripMarks (markValue t) = bareOperand t := by
  have opening : stripMarks [openMark] = [] := by decide
  have closing : stripMarks [closeMark] = [] := by decide
  unfold markValue
  rw [← List.singleton_append, List.append_assoc, stripMarks_append, stripMarks_append, opening,
    closing, stripMarks_bareOperand, List.nil_append, List.append_nil]

theorem operandRow_row (h : IsRow r) : operandRow r = r := by
  obtain ⟨c, s, rfl, head⟩ := h.exists_cons
  unfold operandRow
  rw [stripMarks_row h.2, List.dropWhile_cons_of_neg (by simp [isSign_of_isOperandChar head])]

theorem operandRow_signs (signs : ∀ c ∈ t, isSign c = true) (o : Text) :
    operandRow (t ++ o) = operandRow o := by
  unfold operandRow
  rw [stripMarks_append, stripMarks_signs signs, List.dropWhile_append_of_pos signs]

theorem operandRow_markValue (t : Text) : operandRow (markValue t) = reduceSigns (operandRow t) := by
  unfold operandRow
  rw [stripMarks_markValue, bareOperand, dropWhile_reduceSigns]

/-- What an operand with signs is looked up as. -/
theorem bareOperand_signs (signs : ∀ c ∈ t, isSign c = true) (row : IsRow (operandRow o)) :
    bareOperand (t ++ o) =
      reduceSigns (t ++ (stripMarks o).takeWhile isSign) ++ operandRow o := by
  have whole : stripMarks o = (stripMarks o).takeWhile isSign ++ operandRow o :=
    List.takeWhile_append_dropWhile.symm
  unfold bareOperand
  rw [stripMarks_append, stripMarks_signs signs, whole, ← List.append_assoc,
    reduceSigns_append_row _ row, ← whole]

theorem bareOperand_marked (sign : IsLead lead) (h : IsRow r) :
    bareOperand (openMark :: (lead ++ (r ++ [closeMark]))) = lead ++ r := by
  have strip : stripMarks (openMark :: (lead ++ (r ++ [closeMark]))) = lead ++ r := by
    rw [← List.singleton_append, stripMarks_append, stripMarks_append, stripMarks_append,
      stripMarks_lead sign, stripMarks_row h.2]
    have opening : stripMarks [openMark] = [] := by decide
    have closing : stripMarks [closeMark] = [] := by decide
    rw [opening, closing, List.nil_append, List.append_nil]
  unfold bareOperand
  rw [strip, reduceSigns_append_row lead h, sign.reduced]

theorem splitSign_lead (sign : IsLead lead) (h : IsRow r) :
    Numeral.splitSign (lead ++ r) = (lead == ['-'], r) := by
  have unsigned := h.unsigned []
  rw [List.append_nil] at unsigned
  rcases sign with rfl | rfl | rfl
  · exact Numeral.splitSign_of_no_sign unsigned
  · rfl
  · rfl

theorem bits_le (d : Decimal) : d.bits ≤ infinityBits := by
  rw [Decimal.bits_eq_nearest]
  exact Nat.min_le_left _ _

/-- A sign in front of a numeral takes the opposite of its value. -/
theorem literal?_lead (sign : IsLead lead) (h : IsRow r) :
    Numeral.literal? (lead ++ r) = (Numeral.literal? r).map (applyLead lead) := by
  have sum {bits : Nat} (notNan : bits ≤ infinityBits) :
      ofMagnitude (lead == ['-']) bits = applyLead lead (ofMagnitude false bits) := by
    rcases sign with rfl | rfl | rfl
    · rfl
    · rfl
    · exact (neg_ofMagnitude false notNan).symm
  have plain := splitSign_lead isLead_nil h
  rw [List.nil_append] at plain
  unfold Numeral.literal?
  rw [splitSign_lead sign h, plain]
  by_cases infinite : r = infinityName
  · simp only [infinite, if_true, Option.map_some]
    exact congrArg some (sum (Nat.le_refl _))
  · simp only [infinite, if_false]
    cases Numeral.fixed? r with
    | none => rfl
    | some read =>
      obtain ⟨d, rest⟩ := read
      cases rest with
      | nil => exact congrArg some (sum (bits_le d))
      | cons c rest => rfl

theorem signedName_lead (sign : IsLead lead) (h : IsRow r) :
    signedName (lead ++ r) = (lead == ['-'], r) := by
  obtain ⟨c, s, rfl, head⟩ := h.exists_cons
  rcases sign with rfl | rfl | rfl
  · cases s with
    | nil => rfl
    | cons d s =>
      change (if isSign c = true then _ else _) = _
      rw [isSign_of_isOperandChar head]
      rfl
  · rfl
  · rfl

theorem resolveOperand_of_bareOperand (sign : IsLead lead) (h : IsRow r)
    (bare : bareOperand t = lead ++ r) (value : rowValue? context r = some x) :
    resolveOperand context t = .ok (applyLead lead x) ∧
      isNegatedNaN context.bindings t = false := by
  unfold resolveOperand isNegatedNaN
  simp only [bare, literal?_lead sign h, signedName_lead sign h]
  unfold rowValue? at value
  cases literal : Numeral.literal? r with
  | some y =>
    rw [literal] at value
    cases value
    exact ⟨rfl, rfl⟩
  | none =>
    rw [literal] at value
    cases binding : context.bindings.get? r with
    | none =>
      rw [binding] at value
      contradiction
    | some b =>
      rw [binding] at value
      cases b with
      | unset => contradiction
      | negatedNaN => contradiction
      | number y =>
        cases value
        refine ⟨congrArg Except.ok ?_, rfl⟩
        rcases sign with rfl | rfl | rfl
        · exact one_mul x
        · exact one_mul x
        · exact neg_one_mul x

theorem Denotes.bareOperand (h : Denotes context o x) (sign : IsLead lead) :
    ∃ lead' r y, IsLead lead' ∧ IsTame r ∧ bareOperand (lead ++ o) = lead' ++ r ∧
      rowValue? context r = some y ∧ applyLead lead x = applyLead lead' y := by
  obtain ⟨inner, r, y, sign', tame, bare, value, rfl⟩ := h.value
  refine ⟨reduceSigns (lead ++ inner), r, y, sign.reduceSigns_append sign', tame, ?_, value, ?_⟩
  · rw [bareOperand_lead sign, bare, ← List.append_assoc, reduceSigns_append_row _ tame.row]
  · rw [applyLead_reduceSigns sign sign']

/-- The value of an operand behind a sign. -/
theorem Denotes.resolve (h : Denotes context o x) (sign : IsLead lead) :
    resolveOperand context (lead ++ o) = .ok (applyLead lead x) ∧
      isNegatedNaN context.bindings (lead ++ o) = false := by
  obtain ⟨lead', r, y, sign', tame, bare, value, same⟩ := h.bareOperand sign
  rw [same]
  exact resolveOperand_of_bareOperand sign' tame.row bare value

theorem denotes_row (h : IsTame r) (value : rowValue? context r = some x) : Denotes context r x :=
  ⟨.row h, [], r, x, .inl rfl, h, bareOperand_row h.row, value, rfl⟩

/-- The value that a segment is left with stands for the same number in marks. -/
theorem Denotes.markValue (h : Denotes context o x) (sign : IsLead lead) :
    Denotes context (markValue (lead ++ o)) (applyLead lead x) := by
  obtain ⟨lead', r, y, sign', tame, bare, value, same⟩ := h.bareOperand sign
  have shape : Reckoner.markValue (lead ++ o) = openMark :: (lead' ++ (r ++ [closeMark])) := by
    unfold Reckoner.markValue
    rw [bare, List.cons_append, List.append_assoc]
  rw [shape]
  exact ⟨.marked sign' tame, lead', r, y, sign', tame, bareOperand_marked sign' tame.row, value,
    same⟩

theorem IsTameOperand.markValue (h : IsTameOperand o) (sign : IsLead lead) :
    IsTameOperand (markValue (lead ++ o)) := by
  obtain ⟨inner, r, sign', tame, bare⟩ :
      ∃ inner r, IsLead inner ∧ IsTame r ∧ bareOperand o = inner ++ r := by
    cases h with
    | row h => exact ⟨[], o, .inl rfl, h, bareOperand_row h.row⟩
    | marked sign h => exact ⟨_, _, sign, h, bareOperand_marked sign h.row⟩
  unfold Reckoner.markValue
  rw [bareOperand_lead sign, bare, ← List.append_assoc, reduceSigns_append_row _ tame.row,
    List.cons_append, List.append_assoc]
  exact .marked (sign.reduceSigns_append sign') tame

theorem isOperandChar_of_isArgumentChar {c : Char} (h : isArgumentChar c = true) :
    isOperandChar c = true := by
  unfold isArgumentChar at h
  unfold isOperandChar
  rw [h, Bool.true_or]

theorem isOperandChar_of_isAlpha {c : Char} (h : c.isAlpha = true) : isOperandChar c = true := by
  unfold isOperandChar
  rw [h, Bool.or_true]

theorem isArgumentChar_positional (d : Decimal) :
    ∀ c ∈ d.positional, isArgumentChar c = true := by
  have digit {c : Char} (h : c.isDigit = true) : isArgumentChar c = true := by
    simp [isArgumentChar, h]
  intro c hc
  by_cases whole : 0 ≤ d.exponent
  · rw [Decimal.positional_of_whole whole] at hc
    exact digit (Decimal.isDigit_of_mem_whole hc)
  · rw [Decimal.positional_of_places (by omega)] at hc
    rcases List.mem_append.1 hc with h | h
    · exact digit (Decimal.isDigit_of_mem_padded (List.mem_of_mem_take h))
    · rcases List.mem_cons.1 h with rfl | h
      · decide
      · exact digit (Decimal.isDigit_of_mem_padded (List.mem_of_mem_drop h))

theorem letterless_positional (d : Decimal) : Letterless d.positional := fun c member =>
  not_isAlpha_of_isArgumentChar (isArgumentChar_positional d c member)

theorem positional_ne_nil (d : Decimal) : d.positional ≠ [] := by
  intro empty
  have start := d.positional_startsWith
  rw [empty] at start
  contradiction

theorem isTame_letters (nonempty : r ≠ []) (letters : Letters r)
    (other : Function.ofName? r = none) : IsTame r :=
  ⟨⟨nonempty, fun c member => isOperandChar_of_isAlpha (letters c member)⟩, .inr ⟨letters, other⟩⟩

theorem letters_infinityName : Letters infinityName := by
  unfold Letters
  decide

theorem isTame_infinityName : IsTame infinityName :=
  isTame_letters (by decide) letters_infinityName (by decide)

theorem isTame_sizeText (bits : Nat) : IsTame (sizeText bits) := by
  unfold sizeText
  split
  · refine ⟨⟨List.cons_ne_nil _ _, ?_⟩, .inl ?_⟩
    · unfold Solid
      decide
    · unfold Letterless
      decide
  · split
    · exact isTame_infinityName
    · exact ⟨⟨positional_ne_nil _, solid_positional _⟩, .inl (letterless_positional _)⟩

/-- The size of a number stands for its magnitude. -/
theorem denotes_sizeText (context : Context) {bits : Nat} (notNan : bits ≤ infinityBits) :
    Denotes context (sizeText bits) (ofMagnitude false bits) := by
  apply denotes_row (isTame_sizeText bits)
  unfold rowValue?
  rw [Numeral.literal?_sizeText notNan
    (Numeral.splitSign_of_no_sign (Numeral.sizeText_startsWith bits))]

theorem sizeText_one : sizeText (magnitude 1) = ['1'] := by decide +kernel

theorem sizeText_zero : sizeText (magnitude 0) = ['0'] := by
  have zero : magnitude 0 = 0 := by decide
  rw [zero]
  rfl

theorem denotes_one (context : Context) : Denotes context ['1'] 1 := by
  have same : ofMagnitude false (magnitude 1) = 1 := by decide
  have one : Denotes context (sizeText (magnitude 1)) (ofMagnitude false (magnitude 1)) :=
    denotes_sizeText context (by decide)
  rwa [sizeText_one, same] at one

theorem denotes_zero (context : Context) : Denotes context ['0'] 0 := by
  have same : ofMagnitude false (magnitude 0) = 0 := by decide
  have zero : Denotes context (sizeText (magnitude 0)) (ofMagnitude false (magnitude 0)) :=
    denotes_sizeText context (by decide)
  rwa [sizeText_zero, same] at zero

/-- The value of an operation, which is not NaN. -/
def combine (operator : Operator) (x y : Float) : Except Fault Float := do
  let result ← operate operator x y
  if result.isNaN then throw (.undefinedOperation operator.symbol x y)
  return result

/-- An operation applies its operator to what its operands stand for. -/
theorem solve_of_denotes {o' lead' : Text} (operator : Operator) (hx : Denotes context o x)
    (hy : Denotes context o' y) (sign : IsLead lead) (sign' : IsLead lead') :
    Operation.solve context ⟨lead ++ o, operator, lead' ++ o'⟩ =
      combine operator (applyLead lead x) (applyLead lead' y) := by
  obtain ⟨left, negated⟩ := hx.resolve sign
  have right := (hy.resolve sign').1
  unfold Operation.solve combine
  simp only [left, right, Operation.dividesNegatedNaN, negated, Bool.and_false,
    Bool.false_eq_true, if_false]
  rfl

end Reckoner
