import Reckoner.Proofs.Evaluation.CallOperand
import Reckoner.Proofs.Expression.Written

set_option autoImplicit false

namespace Reckoner

open Double

/-- No name goes on from one text into the other. -/
def CutBetween (t u : Text) : Prop :=
  (∀ c ∈ t.getLast?, isConstantChar c = false) ∨ ∀ c ∈ u.head?, isConstantChar c = false

variable {constants : Table Text Constant} {t u r y : Text} {c : Char} {v : Float}

theorem isConstantChar_of_isAlpha (letter : c.isAlpha = true) : isConstantChar c = true := by
  simp [isConstantChar, letter]

theorem not_isConstantChar_of_isOperator (operator : isOperator c = true) :
    isConstantChar c = false := by
  obtain ⟨o, rfl⟩ := isOperator_iff.1 operator
  cases o <;> decide

theorem not_isConstantChar_of_isArgumentChar (argument : isArgumentChar c = true) :
    isConstantChar c = false := by
  have apart (d : Char) (other : isArgumentChar d = false) : (c == d) = false := by
    rw [beq_eq_false_iff_ne]
    rintro rfl
    rw [argument] at other
    contradiction
  simp [isConstantChar, not_isAlpha_of_isArgumentChar argument, apart 'π' (by decide),
    apart '∞' (by decide)]

/-- The name at the start of a text ends where the text is cut. -/
theorem span_constant (name : isConstantChar c = true) (cut : CutBetween (c :: r) u) :
    (r ++ u).takeWhile isConstantChar = r.takeWhile isConstantChar ∧
      (r ++ u).dropWhile isConstantChar = r.dropWhile isConstantChar ++ u := by
  induction r generalizing c with
  | nil =>
    have next : ∀ d ∈ u.head?, isConstantChar d = false := by
      refine cut.resolve_left fun last => ?_
      rw [last c rfl] at name
      contradiction
    cases u with
    | nil => exact ⟨rfl, rfl⟩
    | cons d u => simp [next d rfl]
  | cons d r ih =>
    by_cases name' : isConstantChar d = true
    · obtain ⟨taken, dropped⟩ := ih name' cut
      simp [name', taken, dropped]
    · simp [name']

theorem CutBetween.dropWhile (cut : CutBetween (c :: r) u) :
    CutBetween (r.dropWhile isConstantChar) u := by
  refine cut.imp_left fun last d final => last d ?_
  obtain ⟨w, suffix⟩ := List.dropWhile_suffix isConstantChar (l := r)
  rw [← suffix, ← List.cons_append, List.getLast?_append, final]
  rfl

/-- The constants on both sides of a cut are replaced on their own. -/
theorem replaceConstants_append (cut : CutBetween t u) :
    replaceConstants constants (t ++ u) =
      (replaceConstants constants t).bind fun t' =>
        (replaceConstants constants u).map fun u' => t' ++ u' := by
  fun_induction replaceConstants constants t with
  | case1 =>
    rw [List.nil_append]
    cases replaceConstants constants u <;> rfl
  | case2 c r name ih =>
    obtain ⟨taken, dropped⟩ := span_constant name cut
    rw [List.cons_append, replaceConstants, if_pos name, taken, dropped, ih cut.dropWhile]
    cases constantText constants (c :: r.takeWhile isConstantChar) with
    | error e => rfl
    | ok value =>
      cases replaceConstants constants (r.dropWhile isConstantChar) with
      | error e => rfl
      | ok r' =>
        cases replaceConstants constants u with
        | error e => rfl
        | ok u' => exact congrArg Except.ok (List.append_assoc ..).symm
  | case3 c r other ih =>
    have rest : CutBetween r u := by
      refine cut.imp_left fun last d final => last d ?_
      rw [← List.singleton_append, List.getLast?_append, final]
      rfl
    rw [List.cons_append, replaceConstants, if_neg other, ih rest]
    cases replaceConstants constants r with
    | error e => rfl
    | ok r' => cases replaceConstants constants u <;> rfl

theorem replaceConstants_of_none (none : ∀ c ∈ t, isConstantChar c = false) :
    replaceConstants constants t = .ok t := by
  induction t with
  | nil => rw [replaceConstants]
  | cons c t ih =>
    obtain ⟨first, rest⟩ := List.forall_mem_cons.1 none
    rw [replaceConstants, if_neg (by simp [first]), ih rest]
    rfl

theorem replaceConstants_letters (nonempty : t ≠ []) (letters : Letters t) :
    replaceConstants constants t = constantText constants t := by
  cases t with
  | nil => contradiction
  | cons c t =>
    have names : ∀ d ∈ c :: t, isConstantChar d = true := fun d member =>
      isConstantChar_of_isAlpha (letters d member)
    obtain ⟨first, rest⟩ := List.forall_mem_cons.1 names
    have taken : (t ++ []).takeWhile isConstantChar = t ++ [] := List.takeWhile_append_of_pos rest
    have dropped : (t ++ []).dropWhile isConstantChar = [] := List.dropWhile_append_of_pos rest
    rw [List.append_nil] at taken dropped
    rw [replaceConstants, if_pos first, taken, dropped, replaceConstants]
    cases constantText constants (c :: t) with
    | error e => rfl
    | ok value => exact congrArg Except.ok (List.append_nil value)

namespace Name

variable {x : Name}

def constant (x : Name) (v : Float) : Table Text Constant := [(x.text, .number v)]

/-- Every occurrence of the variable as a letter run is an operand on its own. -/
def Complete (x : Name) (t : Text) : Prop :=
  ∀ p q, t = p ++ (x.text ++ q) → (∀ c ∈ p.getLast?, c.isAlpha = false) →
    (∀ c ∈ q.head?, c.isAlpha = false) → Delimits p q

/-- The variable gives way to its value as a group. -/
theorem replaceConstants_self (x : Name) (v : Float) :
    replaceConstants (x.constant v) x.text = .ok (groupText v) := by
  have found : (x.constant v).get? x.text = some (.number v) := by
    simp [constant, Table.get?_cons]
  rw [replaceConstants_letters x.nonempty x.letters, constantText, found]
  rfl

theorem replaceConstants_other (nonempty : y ≠ []) (letters : Letters y) (other : y ≠ x.text) :
    replaceConstants (x.constant v) y = .ok y := by
  have missed : (x.constant v).get? y = none := by
    simp [constant, Table.get?_cons, other]
  rw [replaceConstants_letters nonempty letters, constantText, missed]

end Name

end Reckoner
