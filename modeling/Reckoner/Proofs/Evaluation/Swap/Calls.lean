import Reckoner.Proofs.Evaluation.Calls
import Reckoner.Proofs.Evaluation.Swap.Solve

set_option autoImplicit false

namespace Reckoner

open Double

variable {context : Context} {pair after : Text → Text → Prop} {p q : Place}
  {t u w name argument : Text} {x : Float}

theorem solveCall_number (solved : solveCall context name argument = .ok x) : x.isNaN = false := by
  unfold solveCall at solved
  split at solved
  · contradiction
  · split at solved
    · contradiction
    · split at solved
      · contradiction
      · split at solved
        · contradiction
        next notNan =>
          cases solved
          simpa using notNan

theorem Swapped.ends (h : Swapped pair .swapped t u q) : Ends t ∧ Ends u := by
  cases h with
  | nil => exact ⟨.inl rfl, .inl rfl⟩
  | @char _ _ _ t u apart _ =>
    obtain ⟨operator, rfl⟩ := isOperator_iff.1 (apart rfl)
    exact ⟨.inr ⟨operator, t, rfl⟩, .inr ⟨operator, u, rfl⟩⟩
  | swap admits => contradiction

theorem Place.run_infinityName (p : Place) : p.run infinityName = .other := by
  cases p <;> rfl

theorem Swapped.front (start : p ≠ .swapped) (h : Swapped pair (p.run w) t u q) :
    Swapped pair p (w ++ t) (w ++ u) q :=
  (Swapped.same w start).append h

/-- A word of operand characters is read alike where no operand can be exchanged. -/
theorem Swapped.isPrefixOf (solid : Solid w) (closed : p.admits = false)
    (h : Swapped pair p t u q) : w.isPrefixOf t = w.isPrefixOf u ∧
      (w.isPrefixOf t = true → Swapped pair (p.run w) (t.drop w.length) (u.drop w.length) q) := by
  induction w generalizing p t u with
  | nil => exact ⟨rfl, fun _ => h⟩
  | cons c w ih =>
    cases h with
    | nil => exact ⟨rfl, nofun⟩
    | @char _ _ d t u _ rest =>
      by_cases same : c = d
      · subst same
        have next := Place.step_operandChar p (solid c (.head _))
        have inner : (p.step c).admits = false := by
          rw [next]
          rfl
        obtain ⟨equal, after⟩ := ih (fun d hd => solid d (.tail _ hd)) inner rest
        simp only [List.isPrefixOf_cons_cons, beq_self_eq_true, Bool.true_and, List.length_cons,
          List.drop_succ_cons]
        exact ⟨equal, after⟩
      · have apart : (c == d) = false := by simpa using same
        simp only [List.isPrefixOf_cons_cons, apart, Bool.false_and]
        exact ⟨trivial, nofun⟩
    | swap admits =>
      rw [closed] at admits
      contradiction

/-- The size of an argument is read alike where no operand can be exchanged. -/
theorem Swapped.argumentSize? (closed : p.admits = false) (h : Swapped pair p t u q) :
    (Reckoner.argumentSize? t = none ∧ Reckoner.argumentSize? u = none) ∨
      ∃ size t' u', Reckoner.argumentSize? t = some (size, t') ∧
        Reckoner.argumentSize? u = some (size, u') ∧ Swapped pair .other t' u' q := by
  have name : Solid infinityName := by
    unfold Solid infinityName
    decide
  have words := h.isPrefixOf name closed
  rw [Place.run_infinityName] at words
  unfold Reckoner.argumentSize?
  by_cases row : startsWith isArgumentChar t = true
  · cases h with
    | nil => contradiction
    | @char _ _ c t u _ rest =>
      have head : isArgumentChar c = true := row
      have row' : startsWith isArgumentChar (c :: u) = true := head
      rw [Place.step_operandChar p (isOperandChar_of_isArgumentChar head)] at rest
      obtain ⟨same, after⟩ := rest.span fun _ => isOperandChar_of_isArgumentChar
      rw [if_pos row, if_pos row', List.takeWhile_cons_of_pos head, List.takeWhile_cons_of_pos head,
        List.dropWhile_cons_of_pos head, List.dropWhile_cons_of_pos head, same]
      exact .inr ⟨_, _, _, rfl, rfl, after⟩
    | swap admits =>
      rw [closed] at admits
      contradiction
  · have row' : ¬ startsWith isArgumentChar u = true := by
      cases h with
      | nil => exact row
      | char => exact row
      | swap admits =>
        rw [closed] at admits
        contradiction
    rw [if_neg row, if_neg row', ← words.1]
    by_cases infinite : infinityName.isPrefixOf t = true
    · rw [if_pos infinite, if_pos infinite]
      exact .inr ⟨_, _, _, rfl, rfl, words.2 infinite⟩
    · rw [if_neg infinite, if_neg infinite]
      exact .inl ⟨rfl, rfl⟩

def closeArgument? (opening : Text) : Option (Text × Text) → Option (Text × Text)
  | some (size, '}' :: rest) => some (opening ++ size ++ [closeMark], rest)
  | _ => none

theorem argument?_mark (t : Text) : argument? (openMark :: t) =
    closeArgument? (openMark :: (splitOne isSign t).1) (argumentSize? (splitOne isSign t).2) := by
  unfold argument? closeArgument?
  rfl

theorem argument?_of_unmarked {c : Char} (unmarked : c ≠ openMark) (t : Text) :
    argument? (c :: t) = if startsWith isArgumentChar (c :: t) then
      some ((c :: t).takeWhile isArgumentChar, (c :: t).dropWhile isArgumentChar) else none := by
  unfold argument?
  split
  next shape =>
    cases shape
    exact absurd rfl unmarked
  next => rfl

theorem closeArgument?_of_not {size opening : Text} {c : Char} (other : c ≠ closeMark) (t : Text) :
    closeArgument? opening (some (size, c :: t)) = none := by
  unfold closeArgument?
  split
  next shape =>
    cases shape
    exact absurd rfl other
  next => rfl

/-- The size of an argument and its closing mark are read alike. -/
theorem Swapped.closeArgument? (closed : p.admits = false) (h : Swapped pair p t u q)
    (opening : Text) :
    (Reckoner.closeArgument? opening (Reckoner.argumentSize? t) = none ∧
        Reckoner.closeArgument? opening (Reckoner.argumentSize? u) = none) ∨
      ∃ argument t' u',
        Reckoner.closeArgument? opening (Reckoner.argumentSize? t) = some (argument, t') ∧
        Reckoner.closeArgument? opening (Reckoner.argumentSize? u) = some (argument, u') ∧
        Swapped pair .other t' u' q := by
  rcases h.argumentSize? closed with ⟨left, right⟩ | ⟨size, t', u', left, right, rest⟩
  · rw [left, right]
    exact .inl ⟨rfl, rfl⟩
  · rw [left, right]
    -- What follows the size is the same character in both texts, or the end of both.
    generalize place : Place.other = p at rest
    cases rest with
    | nil => exact .inl ⟨rfl, rfl⟩
    | @char _ _ d t u _ rest =>
      subst place
      by_cases closing : d = closeMark
      · subst closing
        exact .inr ⟨_, t, u, rfl, rfl, rest⟩
      · exact .inl ⟨closeArgument?_of_not closing t, closeArgument?_of_not closing u⟩
    | swap admits =>
      subst place
      contradiction

/-- The argument of a call is read alike. -/
theorem Swapped.argument? (closed : p.admits = false) (h : Swapped pair p t u q) :
    (Reckoner.argument? t = none ∧ Reckoner.argument? u = none) ∨
      ∃ argument t' u', Reckoner.argument? t = some (argument, t') ∧
        Reckoner.argument? u = some (argument, u') ∧ Swapped pair .other t' u' q := by
  cases h with
  | nil => exact .inl ⟨rfl, rfl⟩
  | swap admits =>
    rw [closed] at admits
    contradiction
  | @char _ _ c t u _ rest =>
    by_cases marked : c = openMark
    · subst marked
      rw [argument?_mark, argument?_mark]
      have opened : Swapped pair .opened t u q := rest
      rcases opened.splitOne rfl with ⟨left, right, rest⟩ | ⟨d, sign, left, right, rest⟩
      · rw [left, right]
        exact rest.closeArgument? rfl _
      · rw [left, right]
        exact rest.closeArgument? (Place.admits_opened_sign sign) _
    · rw [argument?_of_unmarked marked, argument?_of_unmarked marked]
      by_cases row : isArgumentChar c = true
      · have starts (t : Text) : startsWith isArgumentChar (c :: t) = true := row
        rw [Place.step_operandChar p (isOperandChar_of_isArgumentChar row)] at rest
        obtain ⟨same, after⟩ := rest.span fun _ => isOperandChar_of_isArgumentChar
        rw [if_pos (starts t), if_pos (starts u), List.takeWhile_cons_of_pos row,
          List.takeWhile_cons_of_pos row, List.dropWhile_cons_of_pos row,
          List.dropWhile_cons_of_pos row, same]
        exact .inr ⟨_, _, _, rfl, rfl, after⟩
      · have stops (t : Text) : ¬ startsWith isArgumentChar (c :: t) = true := row
        rw [if_neg (stops t), if_neg (stops u)]
        exact .inl ⟨rfl, rfl⟩

/-- Whatever the text behind an operand, solving the calls of the operand leaves this one. -/
def CallsLeave (context : Context) (o r : Text) : Prop :=
  ∀ done t, Ends t → (solveCalls context done (o ++ t)).outcome =
    (solveCalls context (done ++ r) t).outcome

theorem CallsLeave.alone {o r : Text} (h : CallsLeave context o r) :
    (solveCalls context [] o).outcome = .ok r := by
  have calls := h [] [] (.inl rfl)
  rw [List.append_nil, solveCalls_of_letterless letterless_nil] at calls
  rw [calls, List.nil_append, List.append_nil]
  rfl

theorem solveCalls_name (nonempty : name ≠ []) (letters : Letters name)
    (stop : startsWith Char.isAlpha t = false) (missed : argument? t = none) :
    (solveCalls context [] (name ++ t)).outcome =
      if (Function.ofName? name).isSome && !context.bindings.has name then
        .error (.fault (.missingArgument name))
      else (solveCalls context [] t).outcome.map fun u => name ++ u := by
  have front : solveCalls context [] ([] ++ (name ++ t)) = _ :=
    solveCalls_of_name nofun nonempty letters stop missed
  rw [List.nil_append] at front
  rw [front, ← solveCalls_done]
  split <;> rfl

theorem solveCalls_call {tail : Text} (nonempty : name ≠ []) (letters : Letters name)
    (stop : startsWith Char.isAlpha t = false) (found : argument? t = some (argument, tail)) :
    (solveCalls context [] (name ++ t)).outcome = (solveCall context name argument).bind fun x =>
      if x.isInf then (solveCalls context [] (infinityName ++ tail)).outcome.map
        fun u => signText (isNegative x) ++ u
      else (solveCalls context [] tail).outcome.map fun u => plain x ++ u := by
  have front : (solveCalls context [] ([] ++ (name ++ t))).outcome = _ :=
    solveCalls_of_call nofun nonempty letters stop found
  rw [List.nil_append] at front
  rw [front]
  simp only [← solveCalls_done, List.nil_append, List.append_nil]

/-- The length of a text, where the characters that count for its weight are nine long. Solving a
call makes this less, since a name and nine are longer than infinity. -/
def callSize (t : Text) : Nat := 8 * callWeight t + t.length

theorem callSize_append (t u : Text) : callSize (t ++ u) = callSize t + callSize u := by
  unfold callSize
  rw [callWeight_append, List.length_append]
  omega

theorem callSize_pos (nonempty : t ≠ []) : 0 < callSize t := by
  have some := List.length_pos_iff.2 nonempty
  unfold callSize
  omega

theorem callSize_tail {tail : Text} (found : argument? t = some (argument, tail)) :
    callSize tail + 8 ≤ callSize t := by
  have less := callWeight_rest_lt found
  have whole := congrArg List.length (argument?_eq_append found)
  rw [List.length_append] at whole
  unfold callSize
  omega

/-- The calls of both texts fail, or they leave texts that differ in some operands only. -/
def CallsAlike (context : Context) (after : Text → Text → Prop) (p : Place) (t u : Text) : Prop :=
  Matches (fun t u => ∃ q, Swapped after p t u q) (solveCalls context [] t).outcome
    (solveCalls context [] u).outcome

/-- A name and its argument are the same in both texts, and so is the value of the call. -/
theorem Swapped.solveCalls_name (start : p ≠ .swapped) (nonempty : name ≠ [])
    (letters : Letters name) (h : Swapped pair .other t u q)
    (stop : startsWith Char.isAlpha t = false) (stop' : startsWith Char.isAlpha u = false)
    (rest : ∀ {p q : Place} {t' u' : Text}, Swapped pair p t' u' q →
      callSize t' < callSize (name ++ t) → CallsAlike context after p t' u') :
    CallsAlike context after p (name ++ t) (name ++ u) := by
  have row : IsRow name := ⟨nonempty, fun c hc => isOperandChar_of_isAlpha (letters c hc)⟩
  have some := callSize_pos nonempty
  rw [callSize_append] at rest
  unfold CallsAlike
  rcases h.argument? rfl with ⟨missed, missed'⟩ | ⟨argument, tail, tail', found, found', behind⟩
  · rw [Reckoner.solveCalls_name nonempty letters stop missed,
      Reckoner.solveCalls_name nonempty letters stop' missed']
    split
    · exact .error _ _
    · refine (rest h (by omega)).map fun t u ⟨q, h⟩ => ⟨q, .front start ?_⟩
      rw [Place.run_row row]
      exact h
  · rw [solveCalls_call nonempty letters stop found, solveCalls_call nonempty letters stop' found']
    have lighter := callSize_tail found
    cases solved : solveCall context name argument with
    | error e => exact .error e e
    | ok x =>
      change Matches _ (if _ then _ else _) (if _ then _ else _)
      split
      · have infinite : Swapped pair (p.run (signText (isNegative x))) (infinityName ++ tail)
            (infinityName ++ tail') q := by
          refine .front ?_ ?_
          · unfold signText
            split
            · exact p.step_ne_swapped '-'
            · exact start
          · rw [Place.run_infinityName]
            exact behind
        have eight : callSize infinityName = 8 := by decide
        have less : callSize (infinityName ++ tail) < callSize name + callSize t := by
          rw [callSize_append, eight]
          omega
        exact (rest infinite less).map fun t u ⟨q, h⟩ => ⟨q, .front start h⟩
      · refine (rest behind (by omega)).map fun t u ⟨q, h⟩ => ⟨q, .front start ?_⟩
        rw [(settles_plain (solveCall_number solved)).2]
        exact h

section Pairs

variable (calls : ∀ {o o'}, pair o o' → ∃ r r', after r r' ∧ o ≠ [] ∧ CallsLeave context o r ∧
  CallsLeave context o' r')

include calls

/-- The calls of the two texts are solved in step. -/
theorem Swapped.solveCalls (h : Swapped pair p t u q) : CallsAlike context after p t u := by
  induction size : callSize t using Nat.strongRecOn generalizing p t u q with
  | ind n ih =>
  have next {p q : Place} {t' u' : Text} (h : Swapped pair p t' u' q)
      (less : callSize t' < callSize t) : CallsAlike context after p t' u' :=
    ih _ (size ▸ less) h rfl
  cases h with
  | nil =>
    unfold CallsAlike
    rw [solveCalls_of_letterless letterless_nil]
    exact ⟨p, .nil p⟩
  | @swap _ _ o o' t u admits same rest =>
    obtain ⟨r, r', same', nonempty, left, right⟩ := calls same
    have some := callSize_pos nonempty
    rw [callSize_append] at next
    have ends := rest.ends
    unfold CallsAlike
    rw [left [] t ends.1, right [] u ends.2, solveCalls_done, solveCalls_done ([] ++ r')]
    exact (next rest (by omega)).map fun _ _ ⟨q, h⟩ => ⟨q, .swap admits same' h⟩
  | @char _ _ c t u apart rest =>
    by_cases letter : c.isAlpha = true
    · have start : p ≠ .swapped := by
        rintro rfl
        obtain ⟨operator, rfl⟩ := isOperator_iff.1 (apart rfl)
        cases operator <;> exact absurd letter (by decide)
      rw [Place.step_operandChar p (isOperandChar_of_isAlpha letter)] at rest
      obtain ⟨same, behind⟩ := rest.span fun _ => isOperandChar_of_isAlpha
      have shape (t : Text) : c :: t =
          c :: t.takeWhile Char.isAlpha ++ t.dropWhile Char.isAlpha := by
        rw [List.cons_append, List.takeWhile_append_dropWhile]
      have letters : Letters (c :: t.takeWhile Char.isAlpha) :=
        List.forall_mem_cons.2 ⟨letter, fun d hd => List.all_eq_true.1 List.all_takeWhile d hd⟩
      rw [shape t] at next ⊢
      rw [shape u, ← same]
      exact behind.solveCalls_name start (List.cons_ne_nil _ _) letters (startsWith_dropWhile _ _)
        (startsWith_dropWhile _ _) next
    · have bare : Letterless [c] := by simpa [Letterless] using letter
      have front (t : Text) : (Reckoner.solveCalls context [] (c :: t)).outcome =
          (Reckoner.solveCalls context [] t).outcome.map fun u => [c] ++ u := by
        rw [← solveCalls_done]
        exact solveCalls_append bare [] t
      have less : callSize t < callSize (c :: t) := by
        rw [← List.singleton_append, callSize_append]
        exact Nat.lt_add_of_pos_left (callSize_pos (List.cons_ne_nil _ _))
      unfold CallsAlike
      rw [front, front]
      exact (next rest less).map fun _ _ ⟨q, h⟩ => ⟨q, .char apart h⟩

end Pairs

end Reckoner
