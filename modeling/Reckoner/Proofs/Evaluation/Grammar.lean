import Reckoner.Proofs.Evaluation.Value

set_option autoImplicit false

namespace Reckoner

/-- An unsigned decimal: digits, and behind a point more of them unless there are none. -/
structure Literal where
  whole : Text
  places : Text
  nonempty : whole ≠ []
  digits : ∀ c ∈ whole ++ places, c.isDigit = true

namespace Literal

def text (l : Literal) : Text := if l.places = [] then l.whole else l.whole ++ '.' :: l.places

/-- The double nearest to the decimal. -/
def value (l : Literal) : Float :=
  Numeral.signed false ⟨digitsValue (l.whole ++ l.places), -l.places.length⟩

end Literal

/-- The name of a variable: letters that name neither a function nor infinity. -/
structure Name where
  text : Text
  nonempty : text ≠ []
  letters : Letters text
  notFunction : Function.ofName? text = none
  notInfinity : text ≠ Double.infinityName

theorem Function.ofName?_letter (c : Char) : Function.ofName? [c] = none := by
  refine List.find?_eq_none.2 fun f _ same => ?_
  have short : f.name.length = 1 := congrArg List.length (beq_iff_eq.1 same)
  exact absurd short (by cases f with | trig f => cases f <;> decide | _ => decide)

/-- The name that a letter is. Those of functions are longer. -/
def Name.ofLetter (c : Char) (letter : c.isAlpha = true) : Name where
  text := [c]
  nonempty := List.cons_ne_nil c []
  letters := List.forall_mem_singleton.2 letter
  notFunction := Function.ofName?_letter c
  notInfinity := nofun

/-- A sign, or nothing. -/
abbrev Lead := {lead : Text // IsLead lead}

abbrev OperatorOf (rank : Rank) := {operator : Operator // operator.rank = rank}

mutual

inductive Expr
  | first (lead : Lead) (t : Term)
  | next (e : Expr) (operator : OperatorOf .sum) (t : Term)

inductive Term
  | first (f : Factor)
  | next (t : Term) (operator : OperatorOf .product) (lead : Lead) (f : Factor)

inductive Factor
  | atom (a : Atom)
  | power (a : Atom) (operator : OperatorOf .power) (lead : Lead) (b : Atom)

inductive Atom
  | literal (l : Literal)
  | variable (x : Name)
  | group (e : Expr)

end

mutual

def Expr.text : Expr → Text
  | .first lead t => lead.1 ++ t.text
  | .next e operator t => e.text ++ operator.1.symbol :: t.text

def Term.text : Term → Text
  | .first f => f.text
  | .next t operator lead f => t.text ++ operator.1.symbol :: (lead.1 ++ f.text)

def Factor.text : Factor → Text
  | .atom a => a.text
  | .power a operator lead b => a.text ++ operator.1.symbol :: (lead.1 ++ b.text)

def Atom.text : Atom → Text
  | .literal l => l.text
  | .variable x => x.text
  | .group e => '(' :: (e.text ++ [')'])

end

def Name.eval (context : Context) (x : Name) : Except Fault Float :=
  match (context.bindings.get? x.text).bind Binding.value? with
  | some v => .ok v
  | none => .error (.unknownVariable x.text x.text)

mutual

def Expr.eval (context : Context) : Expr → Except Fault Float
  | .first lead t => (t.eval context).map (applyLead lead.1)
  | .next e operator t => do
    let x ← e.eval context
    let y ← t.eval context
    combine operator.1 x y

def Term.eval (context : Context) : Term → Except Fault Float
  | .first f => f.eval context
  | .next t operator lead f => do
    let x ← t.eval context
    let y ← f.eval context
    combine operator.1 x (applyLead lead.1 y)

def Factor.eval (context : Context) : Factor → Except Fault Float
  | .atom a => a.eval context
  | .power a operator lead b => do
    let x ← a.eval context
    let y ← b.eval context
    combine operator.1 x (applyLead lead.1 y)

def Atom.eval (context : Context) : Atom → Except Fault Float
  | .literal l => .ok l.value
  | .variable x => x.eval context
  | .group e => e.eval context

end

def Name.Bound (context : Context) (x : Name) : Prop :=
  ∃ v : Float, context.bindings.get? x.text = some (.number v) ∧ v.isNaN = false

mutual

def Expr.Bound (context : Context) : Expr → Prop
  | .first _ t => t.Bound context
  | .next e _ t => e.Bound context ∧ t.Bound context

def Term.Bound (context : Context) : Term → Prop
  | .first f => f.Bound context
  | .next t _ _ f => t.Bound context ∧ f.Bound context

def Factor.Bound (context : Context) : Factor → Prop
  | .atom a => a.Bound context
  | .power a _ _ b => a.Bound context ∧ b.Bound context

def Atom.Bound (context : Context) : Atom → Prop
  | .literal _ => True
  | .variable x => x.Bound context
  | .group e => e.Bound context

end

mutual

/-- No division that the evaluation comes to is one by zero. -/
def Expr.NeverDividesByZero (context : Context) : Expr → Prop
  | .first _ t => t.NeverDividesByZero context
  | .next e _ t => e.NeverDividesByZero context ∧ ∀ x, e.eval context = .ok x → t.NeverDividesByZero context

def Term.NeverDividesByZero (context : Context) : Term → Prop
  | .first f => f.NeverDividesByZero context
  | .next t operator _ f =>
    t.NeverDividesByZero context ∧ ∀ x, t.eval context = .ok x → f.NeverDividesByZero context ∧
      (operator.1 = .divide → ∀ y, f.eval context = .ok y → (y == 0) = false)

def Factor.NeverDividesByZero (context : Context) : Factor → Prop
  | .atom a => a.NeverDividesByZero context
  | .power a _ _ b => a.NeverDividesByZero context ∧ ∀ x, a.eval context = .ok x → b.NeverDividesByZero context

def Atom.NeverDividesByZero (context : Context) : Atom → Prop
  | .literal _ => True
  | .variable _ => True
  | .group e => e.NeverDividesByZero context

end

variable {context : Context}

theorem Numeral.literal?_of_row {t : Text} {d : Decimal} (unsigned : startsWith isSign t = false)
    (read : fixed? t = some (d, [])) : literal? t = some (signed false d) :=
  literal?_decimal (splitSign_of_no_sign unsigned) read

theorem Literal.row (l : Literal) : ∀ c ∈ l.whole, c.isDigit = true :=
  fun c hc => l.digits c (List.mem_append_left _ hc)

theorem Literal.mem_text {l : Literal} {c : Char} (h : c ∈ l.text) : isArgumentChar c = true := by
  have digit (h : c.isDigit = true) : isArgumentChar c = true := by simp [isArgumentChar, h]
  unfold Literal.text at h
  split at h
  · exact digit (l.row c h)
  · rcases List.mem_append.1 h with h | h
    · exact digit (l.row c h)
    · rcases List.mem_cons.1 h with rfl | h
      · decide
      · exact digit (l.digits c (List.mem_append_right _ h))

theorem Literal.isRow (l : Literal) : IsRow l.text := by
  refine ⟨?_, fun c hc => isOperandChar_of_isArgumentChar (Literal.mem_text hc)⟩
  unfold Literal.text
  split
  · exact l.nonempty
  · exact List.append_ne_nil_of_right_ne_nil _ (List.cons_ne_nil _ _)

theorem Literal.exists_cons (l : Literal) : ∃ c s, l.text = c :: s ∧ isArgumentChar c = true := by
  obtain ⟨c, s, shape, _⟩ := l.isRow.exists_cons
  exact ⟨c, s, shape, Literal.mem_text (by rw [shape]; exact .head _)⟩

theorem Literal.not_startsWith_isAlpha (l : Literal) (t : Text) :
    startsWith Char.isAlpha (l.text ++ t) = false := by
  obtain ⟨c, s, shape, first⟩ := l.exists_cons
  rw [shape]
  exact not_isAlpha_of_isArgumentChar first

theorem Literal.isTame (l : Literal) : IsTame l.text :=
  ⟨l.isRow, .inl fun _ hc => not_isAlpha_of_isArgumentChar (Literal.mem_text hc)⟩

theorem Literal.literal?_text (l : Literal) : Numeral.literal? l.text = some l.value := by
  have unsigned := l.isRow.unsigned []
  rw [List.append_nil] at unsigned
  apply Numeral.literal?_of_row unsigned
  have value := Numeral.digitsValue_of_row l.digits
  unfold Literal.text
  split
  next whole =>
    rw [Numeral.fixed?_of_row l.row l.nonempty, value, whole]
    simp
  next =>
    rw [Numeral.fixed?_of_rows l.row l.nonempty
      fun c hc => l.digits c (List.mem_append_right _ hc), value]

theorem Name.isTame (x : Name) : IsTame x.text := by
  refine ⟨⟨x.nonempty, ?_⟩, .inr ⟨x.letters, x.notFunction⟩⟩
  intro c hc
  unfold isOperandChar
  rw [x.letters c hc, Bool.or_true]

theorem Name.ne_function (x : Name) (f : Function) : f.name ≠ x.text := by
  intro same
  have found := x.notFunction
  rw [← same, Function.ofName?_name] at found
  contradiction

/-- What begins with a letter is no numeral, unless it is the name of infinity. -/
theorem Numeral.literal?_of_letter {c : Char} {r : Text} (letter : c.isAlpha = true)
    (other : c :: r ≠ Double.infinityName) : Numeral.literal? (c :: r) = none := by
  have unsigned : startsWith isSign (c :: r) = false :=
    isSign_of_isOperandChar (isOperandChar_of_isAlpha letter)
  have notDigit := isDecimalDigit_of_isAlpha letter
  have notPoint : c ≠ '.' := by
    rintro rfl
    contradiction
  have read : Numeral.fixed? (c :: r) = none := by
    have none : Numeral.digits (c :: r) = [] := List.takeWhile_cons_of_neg (by simp [notDigit])
    have rest : Numeral.afterDigits (c :: r) = c :: r :=
      List.dropWhile_cons_of_neg (by simp [notDigit])
    unfold Numeral.fixed?
    rw [none, rest]
    split
    next point =>
      cases point
      contradiction
    next => rfl
  unfold Numeral.literal?
  rw [Numeral.splitSign_of_no_sign unsigned]
  simp only [other, if_false, read]

/-- A name is no numeral. -/
theorem Name.literal?_text (x : Name) : Numeral.literal? x.text = none := by
  obtain ⟨c, r, shape⟩ := List.exists_cons_of_ne_nil x.nonempty
  have other := x.notInfinity
  rw [shape] at other ⊢
  exact Numeral.literal?_of_letter (x.letters c (shape ▸ .head _)) other

theorem Name.denotes {x : Name} {v : Float} (binding : context.bindings.get? x.text = some (.number v)) :
    Denotes context x.text v := by
  apply denotes_row x.isTame
  unfold rowValue?
  rw [x.literal?_text, binding]

theorem Literal.denotes (l : Literal) : Denotes context l.text l.value := by
  apply denotes_row l.isTame
  unfold rowValue?
  rw [l.literal?_text]

end Reckoner
