import Reckoner.Text.Character

set_option autoImplicit false

namespace Reckoner

/-- The ranks of operators. Within a rank the operators are applied from left to right. -/
inductive Rank where
  | power
  | product
  | sum
deriving DecidableEq, Repr

namespace Rank

def all : List Rank := [power, product, sum]

def name : Rank → String
  | power => "root-power"
  | product => "multiply-divide"
  | sum => "add-subtract"

end Rank

/-- The operators between two operands. A root has its index on the left. -/
inductive Operator where
  | root | power | multiply | divide | add | subtract
deriving DecidableEq, Repr

namespace Operator

def symbol : Operator → Char
  | root => rootMark
  | power => '^'
  | multiply => '*'
  | divide => '/'
  | add => '+'
  | subtract => '-'

def all : List Operator := [root, power, multiply, divide, add, subtract]

def ofChar? (c : Char) : Option Operator := all.find? fun operator => operator.symbol == c

def rank : Operator → Rank
  | root | power => .power
  | multiply | divide => .product
  | add | subtract => .sum

theorem ofChar?_symbol (operator : Operator) : ofChar? operator.symbol = some operator := by
  cases operator <;> decide

theorem symbol_of_ofChar? {c : Char} {operator : Operator} (h : ofChar? c = some operator) :
    operator.symbol = c := by
  simpa using List.find?_some h

theorem not_isOperandChar_symbol (operator : Operator) : isOperandChar operator.symbol = false := by
  cases operator <;> decide

/-- The operators of sums are the signs. -/
theorem isSign_symbol_iff {operator : Operator} :
    isSign operator.symbol = true ↔ operator.rank = .sum := by
  cases operator <;> decide

theorem not_isSign_symbol {operator : Operator} (product : operator.rank ≠ .sum) :
    isSign operator.symbol = false := by
  simpa using mt isSign_symbol_iff.1 product

theorem symbol_ne_openMark (operator : Operator) : operator.symbol ≠ openMark := by
  cases operator <;> decide

end Operator

theorem isOperator_iff {c : Char} :
    isOperator c = true ↔ ∃ operator : Operator, operator.symbol = c := by
  constructor
  · intro h
    simp only [isOperator, isSign, isBinaryOnly, Bool.or_eq_true, beq_iff_eq] at h
    rcases h with (rfl | rfl) | ((rfl | rfl) | rfl) | rfl
    · exact ⟨.add, rfl⟩
    · exact ⟨.subtract, rfl⟩
    · exact ⟨.multiply, rfl⟩
    · exact ⟨.divide, rfl⟩
    · exact ⟨.power, rfl⟩
    · exact ⟨.root, rfl⟩
  · rintro ⟨operator, rfl⟩
    cases operator <;> decide

theorem exists_operator_of_isSign {c : Char} (h : isSign c = true) :
    ∃ operator : Operator, operator.rank = .sum ∧ operator.symbol = c := by
  obtain ⟨operator, rfl⟩ := isOperator_iff.1 (show isOperator c = true by simp [isOperator, h])
  exact ⟨operator, Operator.isSign_symbol_iff.1 h, rfl⟩

theorem exists_operator_of_isBinaryOnly {c : Char} (h : isBinaryOnly c = true) :
    ∃ operator : Operator, operator.rank ≠ .sum ∧ operator.symbol = c := by
  obtain ⟨operator, rfl⟩ := isOperator_iff.1 (show isOperator c = true by simp [isOperator, h])
  refine ⟨operator, ?_, rfl⟩
  cases operator <;> first | decide | exact absurd h (by decide)

end Reckoner
