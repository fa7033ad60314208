import Reckoner.Evaluation.Operand
import Reckoner.Function.Value
import Reckoner.Traced

set_option autoImplicit false

namespace Reckoner

/-- The characters of arguments without marks. -/
def isArgumentChar (c : Char) : Bool := c.isDigit || c == '.'

/-- The size of an argument at the start of a text: digits and points, or the name of infinity;
and what follows. -/
def argumentSize? (t : Text) : Option (Text × Text) :=
  if startsWith isArgumentChar t then
    some (t.takeWhile isArgumentChar, t.dropWhile isArgumentChar)
  else if Double.infinityName.isPrefixOf t then
    some (Double.infinityName, t.drop Double.infinityName.length)
  else none

/-- The argument at the start of a text, and what follows. Only in marks can it have a sign or be
infinite. -/
def argument? : Text → Option (Text × Text)
  | '{' :: r =>
    let (sign, r) := splitOne isSign r
    match argumentSize? r with
    | some (size, '}' :: rest) => some (openMark :: sign ++ size ++ [closeMark], rest)
    | _ => none
  | t =>
    if startsWith isArgumentChar t then
      some (t.takeWhile isArgumentChar, t.dropWhile isArgumentChar)
    else none

def solveCall (context : Context) (name argument : Text) : Except Failure Float :=
  match Function.ofName? name with
  | none => .error (.fault (.unknownFunction name))
  | some f =>
    match Numeral.literal? (stripMarks argument) with
    | none => .error (.mishap (.notANumber (stripMarks argument)))
    | some x =>
      match f.apply context.angles x with
      | .error fault => .error (.fault fault)
      | .ok result =>
        if result.isNaN then .error (.fault (.undefinedCall name x)) else .ok result

/-- The weight of a text for the solving of its calls: how many of its characters are neither
letters nor minuses. A call has such a character in its argument, and infinity has none. -/
def callWeight (t : Text) : Nat := t.countP fun c => !(c.isAlpha || c == '-')

theorem not_isAlpha_of_isArgumentChar {c : Char} (h : isArgumentChar c = true) :
    c.isAlpha = false := by
  simp only [isArgumentChar, Bool.or_eq_true, beq_iff_eq] at h
  rcases h with digit | rfl
  · rw [← Bool.not_eq_true]
    intro letter
    rw [not_isDigit_of_isAlpha letter] at digit
    contradiction
  · decide

theorem argumentSize?_eq_append {t size rest : Text} (h : argumentSize? t = some (size, rest)) :
    t = size ++ rest := by
  simp only [argumentSize?] at h
  split at h
  · cases h
    exact (List.takeWhile_append_dropWhile).symm
  · split at h
    next isPrefix =>
      cases h
      obtain ⟨r, rfl⟩ := List.isPrefixOf_iff_prefix.1 isPrefix
      rw [List.drop_left]
    next => contradiction

theorem argument?_eq_append {t argument rest : Text} (h : argument? t = some (argument, rest)) :
    t = argument ++ rest := by
  unfold argument? at h
  split at h
  next r =>
    simp only at h
    split at h
    next size after found =>
      cases h
      have whole := splitOne_append isSign r
      rw [argumentSize?_eq_append found] at whole
      simp [openMark, closeMark, ← whole.symm]
    next => contradiction
  next =>
    split at h
    · cases h
      exact (List.takeWhile_append_dropWhile).symm
    · contradiction

private theorem callWeight_argument_pos {t argument rest : Text}
    (h : argument? t = some (argument, rest)) : 0 < callWeight argument := by
  unfold argument? at h
  split at h
  next r =>
    simp only at h
    split at h
    next =>
      cases h
      exact List.countP_pos_iff.2 ⟨openMark, .head _, by decide⟩
    next => contradiction
  next =>
    split at h
    next starts =>
      cases h
      cases t with
      | nil => simp [startsWith] at starts
      | cons c r =>
        have hc : isArgumentChar c = true := by simpa [startsWith] using starts
        have light := not_isAlpha_of_isArgumentChar hc
        have sign : c ≠ '-' := by rintro rfl; contradiction
        simp [callWeight, hc, light, sign]
    next => contradiction

theorem callWeight_append (t u : Text) :
    callWeight (t ++ u) = callWeight t + callWeight u :=
  List.countP_append

theorem callWeight_rest_lt {t argument rest : Text}
    (h : argument? t = some (argument, rest)) : callWeight rest < callWeight t := by
  rw [argument?_eq_append h, callWeight_append]
  exact Nat.lt_add_of_pos_left (callWeight_argument_pos h)

private theorem sublist_of_dropWhile_eq_cons {p q : Char → Bool} {t r : Text} {c : Char}
    (h : t.dropWhile p = c :: r) : (c :: r.dropWhile q).Sublist t := by
  have rest : (c :: r).Sublist t := h ▸ List.dropWhile_sublist p
  exact ((List.dropWhile_sublist q).cons_cons c).trans rest

/-- The segment with its calls solved. Before `rest` stands `done`, in which no call begins. -/
def solveCalls (context : Context) (done rest : Text) : Traced Failure Text :=
  let before := done ++ rest.takeWhile (!·.isAlpha)
  match _shape : rest.dropWhile (!·.isAlpha) with
  | [] => pure before
  | c :: r =>
    let name := c :: r.takeWhile Char.isAlpha
    let after := r.dropWhile Char.isAlpha
    match _found : argument? after with
    | none =>
      if (Function.ofName? name).isSome && !context.bindings.has name then
        Traced.fail (.fault (.missingArgument name))
      else solveCalls context (before ++ name) after
    | some (argument, tail) => do
      let result ← Traced.ofExcept (solveCall context name argument)
      Traced.emit (.callSolved (name ++ argument) result (before ++ Double.plain result ++ tail))
      if result.isInf then
        solveCalls context (before ++ Double.signText (Double.isNegative result))
          (Double.infinityName ++ tail)
      else solveCalls context (before ++ Double.plain result) tail
termination_by (callWeight rest, rest.length)
decreasing_by
  all_goals
    have inside := sublist_of_dropWhile_eq_cons (q := Char.isAlpha) _shape
    have lighter : callWeight after ≤ callWeight rest :=
      ((List.sublist_cons_self c _).trans inside).countP_le
  · exact Prod.Lex.right' _ lighter inside.length_le
  · apply Prod.Lex.left
    have nothing : callWeight Double.infinityName = 0 := by decide
    rw [callWeight_append, nothing, Nat.zero_add]
    exact Nat.lt_of_lt_of_le (callWeight_rest_lt _found) lighter
  · exact Prod.Lex.left _ _ (Nat.lt_of_lt_of_le (callWeight_rest_lt _found) lighter)

end Reckoner
