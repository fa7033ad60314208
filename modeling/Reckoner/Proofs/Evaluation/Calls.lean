import Reckoner.Evaluation.Calls
import Reckoner.Proofs.Evaluation.Value
import Reckoner.Proofs.Traced

set_option autoImplicit false

namespace Reckoner

open Double

variable {context : Context} {done t p name argument tail : Text} {x : Float}

theorem letterless_nil : Letterless [] := fun _ none => absurd none List.not_mem_nil

theorem takeWhile_letterless (bare : Letterless p) (t : Text) :
    (p ++ t).takeWhile (!·.isAlpha) = p ++ t.takeWhile (!·.isAlpha) :=
  List.takeWhile_append_of_pos fun c hc => by simp [bare c hc]

theorem dropWhile_letterless (bare : Letterless p) (t : Text) :
    (p ++ t).dropWhile (!·.isAlpha) = t.dropWhile (!·.isAlpha) :=
  List.dropWhile_append_of_pos fun c hc => by simp [bare c hc]

theorem takeWhile_letters (letters : Letters name) (stop : startsWith Char.isAlpha t = false) :
    (name ++ t).takeWhile Char.isAlpha = name := by
  rw [List.takeWhile_append_of_pos letters]
  cases t with
  | nil => simp
  | cons c t =>
    have head : c.isAlpha = false := by simpa [startsWith] using stop
    rw [List.takeWhile_cons_of_neg (by simp [head]), List.append_nil]

theorem dropWhile_letters (letters : Letters name) (stop : startsWith Char.isAlpha t = false) :
    (name ++ t).dropWhile Char.isAlpha = t := by
  rw [List.dropWhile_append_of_pos letters]
  cases t with
  | nil => rfl
  | cons c t =>
    have head : c.isAlpha = false := by simpa [startsWith] using stop
    rw [List.dropWhile_cons_of_neg (by simp [head])]

theorem solveCalls_of_letterless (bare : Letterless t) :
    solveCalls context done t = pure (done ++ t) := by
  have taken := takeWhile_letterless bare []
  have dropped := dropWhile_letterless bare []
  rw [List.append_nil] at taken dropped
  rw [solveCalls]
  split
  next =>
    rw [taken]
    simp
  next shape =>
    rw [dropped] at shape
    contradiction

/-- The start of a call, taken apart. -/
theorem dropWhile_name {c : Char} {r after : Text} (bare : Letterless p)
    (letters : Letters (c :: r)) :
    (p ++ (c :: r ++ after)).dropWhile (!·.isAlpha) = c :: (r ++ after) := by
  rw [dropWhile_letterless bare, List.cons_append,
    List.dropWhile_cons_of_neg (by simp [letters c (.head _)])]

theorem takeWhile_name {c : Char} {r after : Text} (bare : Letterless p)
    (letters : Letters (c :: r)) :
    (p ++ (c :: r ++ after)).takeWhile (!·.isAlpha) = p := by
  rw [takeWhile_letterless bare, List.cons_append,
    List.takeWhile_cons_of_neg (by simp [letters c (.head _)]), List.append_nil]

theorem solveCalls_of_name (bare : Letterless p) (nonempty : name ≠ []) (letters : Letters name)
    (stop : startsWith Char.isAlpha t = false) (missed : argument? t = none) :
    solveCalls context done (p ++ (name ++ t)) =
      if (Function.ofName? name).isSome && !context.bindings.has name then
        Traced.fail (.fault (.missingArgument name))
      else solveCalls context (done ++ p ++ name) t := by
  cases name with
  | nil => contradiction
  | cons c r =>
    have inner : Letters r := fun d hd => letters d (.tail _ hd)
    obtain ⟨after, result⟩ : ∃ after, after =
        if (Function.ofName? (c :: r)).isSome && !context.bindings.has (c :: r) then
          Traced.fail (.fault (.missingArgument (c :: r)))
        else solveCalls context (done ++ p ++ (c :: r)) t := ⟨_, rfl⟩
    rw [← result]
    rw [solveCalls]
    split
    next shape =>
      rw [dropWhile_name bare letters] at shape
      contradiction
    next d s shape =>
      rw [dropWhile_name bare letters] at shape
      cases shape
      dsimp only
      split
      next =>
        rw [result]
        simp only [takeWhile_name bare letters, takeWhile_letters inner stop,
          dropWhile_letters inner stop]
      next found =>
        rw [dropWhile_letters inner stop, missed] at found
        contradiction

/-- A call gives way to its value. -/
theorem solveCalls_of_called (bare : Letterless p) (nonempty : name ≠ []) (letters : Letters name)
    (stop : startsWith Char.isAlpha t = false) (found : argument? t = some (argument, tail)) :
    solveCalls context done (p ++ (name ++ t)) = (do
      let x ← Traced.ofExcept (solveCall context name argument)
      Traced.emit (.callSolved (name ++ argument) x (done ++ p ++ plain x ++ tail))
      if x.isInf then solveCalls context (done ++ p ++ signText (isNegative x)) (infinityName ++ tail)
      else solveCalls context (done ++ p ++ plain x) tail) := by
  cases name with
  | nil => contradiction
  | cons c r =>
    have inner : Letters r := fun d hd => letters d (.tail _ hd)
    rw [solveCalls]
    split
    next shape =>
      rw [dropWhile_name bare letters] at shape
      contradiction
    next d s shape =>
      rw [dropWhile_name bare letters] at shape
      cases shape
      dsimp only
      split
      next missed =>
        rw [dropWhile_letters inner stop, found] at missed
        contradiction
      next argument' tail' found' =>
        rw [dropWhile_letters inner stop, found] at found'
        cases found'
        simp only [takeWhile_name bare letters, takeWhile_letters inner stop]

theorem solveCalls_of_call (bare : Letterless p) (nonempty : name ≠ []) (letters : Letters name)
    (stop : startsWith Char.isAlpha t = false) (found : argument? t = some (argument, tail)) :
    (solveCalls context done (p ++ (name ++ t))).outcome =
      (solveCall context name argument).bind fun x =>
        if x.isInf then
          (solveCalls context (done ++ p ++ signText (isNegative x)) (infinityName ++ tail)).outcome
        else (solveCalls context (done ++ p ++ plain x) tail).outcome := by
  rw [solveCalls_of_called bare nonempty letters stop found]
  simp only [Traced.outcome_bind, Traced.outcome_ofExcept, Traced.outcome_emit,
    apply_ite Traced.outcome]
  rfl

/-- The first name of a text, if it has any letters. -/
theorem letterless_or_name (t : Text) : Letterless t ∨ ∃ p name after, t = p ++ (name ++ after) ∧
    Letterless p ∧ name ≠ [] ∧ Letters name ∧ startsWith Char.isAlpha after = false := by
  induction t with
  | nil => exact .inl nofun
  | cons c r ih =>
    by_cases letter : c.isAlpha = true
    · refine .inr ⟨[], (c :: r).takeWhile Char.isAlpha, (c :: r).dropWhile Char.isAlpha, ?_, nofun,
        ?_, fun d hd => List.all_eq_true.1 List.all_takeWhile d hd, startsWith_dropWhile _ _⟩
      · rw [List.nil_append, List.takeWhile_append_dropWhile]
      · simp [letter]
    · have head : c.isAlpha = false := by simpa using letter
      rcases ih with bare | ⟨p, name, after, rfl, bare, rest⟩
      · exact .inl (List.forall_mem_cons.2 ⟨head, bare⟩)
      · exact .inr ⟨c :: p, name, after, rfl, List.forall_mem_cons.2 ⟨head, bare⟩, rest⟩

/-- Induction along the names of a text. Behind a call it goes on with and without an infinite
value in front. -/
theorem calls_induction {motive : Text → Prop}
    (letterless : ∀ t, Letterless t → motive t)
    (named : ∀ p name t, Letterless p → name ≠ [] → Letters name →
      startsWith Char.isAlpha t = false → argument? t = none → motive t → motive (p ++ (name ++ t)))
    (called : ∀ p name t argument tail, Letterless p → name ≠ [] → Letters name →
      startsWith Char.isAlpha t = false → argument? t = some (argument, tail) → motive tail →
      motive (infinityName ++ tail) → motive (p ++ (name ++ t)))
    (t : Text) : motive t := by
  rcases letterless_or_name t with bare | ⟨p, name, after, shape, bare, nonempty, letters, stop⟩
  · exact letterless t bare
  · have lighter : callWeight after ≤ callWeight t := by
      rw [shape, callWeight_append, callWeight_append]
      omega
    have shorter : after.length < t.length := by
      have some := List.length_pos_iff.2 nonempty
      rw [shape, List.length_append, List.length_append]
      omega
    rw [shape]
    cases found : argument? after with
    | none =>
      exact named p name after bare nonempty letters stop found
        (calls_induction letterless named called after)
    | some call =>
      obtain ⟨argument, tail⟩ := call
      have less := callWeight_rest_lt found
      have nothing : callWeight infinityName = 0 := by decide
      have same : callWeight (infinityName ++ tail) = callWeight tail := by
        rw [callWeight_append, nothing, Nat.zero_add]
      exact called p name after argument tail bare nonempty letters stop found
        (calls_induction letterless named called tail)
        (calls_induction letterless named called (infinityName ++ tail))
termination_by (callWeight t, t.length)
decreasing_by
  · exact Prod.Lex.right' _ lighter shorter
  · exact Prod.Lex.left _ _ (by omega)
  · exact Prod.Lex.left _ _ (by omega)

/-- What is no letter stands in front of a name, or behind it. -/
theorem append_name_eq {c : Char} {a u : Text} (letters : Letters name) (other : c.isAlpha = false)
    (shape : p ++ (name ++ t) = a ++ c :: u) :
    (∃ w, p = a ++ c :: w ∧ u = w ++ (name ++ t)) ∨ ∃ b, t = b ++ c :: u := by
  rcases List.append_eq_append_iff.1 shape with ⟨b, rfl, inside⟩ | ⟨b, rfl, inside⟩
  · rcases List.append_eq_append_iff.1 inside with ⟨d, rfl, after⟩ | ⟨d, rfl, after⟩
    · exact .inr ⟨d, after⟩
    · cases d with
      | nil => exact .inr ⟨[], after.symm⟩
      | cons e d =>
        have letter := letters e (List.mem_append_right _ (.head _))
        rw [← (List.cons.inj after).1, other] at letter
        contradiction
  · cases b with
    | cons e b =>
      obtain ⟨rfl, rest⟩ := List.cons.inj inside
      exact .inl ⟨b, rfl, rest⟩
    | nil =>
      cases name with
      | nil => exact .inr ⟨[], inside.symm⟩
      | cons e s =>
        have letter := letters e (.head _)
        rw [← (List.cons.inj inside).1, other] at letter
        contradiction

/-- What is no letter is passed over. -/
theorem solveCalls_append (bare : Letterless p) (done t : Text) :
    (solveCalls context done (p ++ t)).outcome = (solveCalls context (done ++ p) t).outcome := by
  have both {q : Text} (bare' : Letterless q) : Letterless (p ++ q) := fun c hc =>
    (List.mem_append.1 hc).elim (bare c) (bare' c)
  rcases letterless_or_name t with bare' | ⟨q, name, after, rfl, bare', nonempty, letters, stop⟩
  · rw [solveCalls_of_letterless (both bare'), solveCalls_of_letterless bare', List.append_assoc]
  · rw [← List.append_assoc p]
    cases found : argument? after with
    | none =>
      rw [solveCalls_of_name (both bare') nonempty letters stop found,
        solveCalls_of_name bare' nonempty letters stop found]
      simp only [List.append_assoc]
    | some call =>
      rw [solveCalls_of_call (both bare') nonempty letters stop found,
        solveCalls_of_call bare' nonempty letters stop found]
      simp only [List.append_assoc]

/-- What stands before stays in front. -/
theorem solveCalls_done (done t : Text) :
    (solveCalls context done t).outcome =
      (solveCalls context [] t).outcome.map fun u => done ++ u := by
  induction t using calls_induction generalizing done with
  | letterless t bare =>
    rw [solveCalls_of_letterless bare, solveCalls_of_letterless bare]
    rfl
  | named p name t bare nonempty letters stop missed ih =>
    rw [solveCalls_of_name bare nonempty letters stop missed,
      solveCalls_of_name bare nonempty letters stop missed]
    split
    · rfl
    · rw [ih (done ++ p ++ name), ih ([] ++ p ++ name)]
      cases (solveCalls context [] t).outcome with
      | error e => rfl
      | ok u => simp [Except.map]
  | called p name t argument tail bare nonempty letters stop found ih ihInfinite =>
    rw [solveCalls_of_call bare nonempty letters stop found,
      solveCalls_of_call bare nonempty letters stop found]
    cases solveCall context name argument with
    | error e => rfl
    | ok x =>
      simp only [Except.bind]
      split
      · rw [ihInfinite (done ++ p ++ _), ihInfinite ([] ++ p ++ _)]
        cases (solveCalls context [] (infinityName ++ tail)).outcome with
        | error e => rfl
        | ok u => simp [Except.map]
      · rw [ih (done ++ p ++ _), ih ([] ++ p ++ _)]
        cases (solveCalls context [] tail).outcome with
        | error e => rfl
        | ok u => simp [Except.map]

def Ends (t : Text) : Prop := t = [] ∨ ∃ (operator : Operator) (r : Text), t = operator.symbol :: r

theorem Ends.stops (h : Ends t) : Stops t := by
  rcases h with rfl | ⟨operator, r, rfl⟩
  · exact stops_nil
  · exact stops_symbol operator r

theorem Ends.startsWith_isAlpha (h : Ends t) : startsWith Char.isAlpha t = false := by
  rcases h with rfl | ⟨operator, r, rfl⟩
  · rfl
  · cases operator <;> rfl

theorem argument?_of_not {c : Char} (unmarked : c ≠ openMark) (bare : isArgumentChar c = false)
    (t : Text) : argument? (c :: t) = none := by
  have head : startsWith isArgumentChar (c :: t) = false := bare
  unfold argument?
  split
  next shape =>
    cases shape
    exact absurd rfl unmarked
  next => rw [if_neg (by simp [head])]

theorem Ends.argument? (h : Ends t) : Reckoner.argument? t = none := by
  rcases h with rfl | ⟨operator, r, rfl⟩
  · rfl
  · cases operator <;> exact argument?_of_not (by decide) (by decide) r

theorem solveCalls_tame {r : Text} (h : IsTame r) (stop : startsWith Char.isAlpha t = false)
    (missed : argument? t = none) (done : Text) :
    (solveCalls context done (r ++ t)).outcome = (solveCalls context (done ++ r) t).outcome := by
  rcases h.silent with bare | ⟨letters, notFunction⟩
  · exact solveCalls_append bare done t
  · have named : solveCalls context done ([] ++ (r ++ t)) = _ :=
      solveCalls_of_name nofun h.row.1 letters stop missed
    rw [List.nil_append, List.append_nil] at named
    rw [named, notFunction]
    rfl

/-- The search for calls passes over an operand in which none is seen. -/
theorem IsTameOperand.solveCalls {o : Text} (h : IsTameOperand o) (ends : Ends t) (done : Text) :
    (Reckoner.solveCalls context done (o ++ t)).outcome =
      (Reckoner.solveCalls context (done ++ o) t).outcome := by
  cases h with
  | row h => exact solveCalls_tame h ends.startsWith_isAlpha ends.argument? done
  | @marked lead r sign h =>
    have opening : Letterless (openMark :: lead) := by
      rcases sign with rfl | rfl | rfl <;> (unfold Letterless; decide)
    have closing : Letterless [closeMark] := by
      unfold Letterless
      decide
    have shape : openMark :: (lead ++ (r ++ [closeMark])) ++ t =
        openMark :: lead ++ (r ++ (closeMark :: t)) := by simp
    have whole : done ++ openMark :: lead ++ r ++ [closeMark] =
        done ++ openMark :: (lead ++ (r ++ [closeMark])) := by simp
    have mark : (Reckoner.solveCalls context _ ([closeMark] ++ t)).outcome = _ :=
      solveCalls_append closing (done ++ openMark :: lead ++ r) t
    have stop : startsWith Char.isAlpha (closeMark :: t) = false := by
      change closeMark.isAlpha = false
      decide
    rw [shape, solveCalls_append opening,
      solveCalls_tame h stop (argument?_of_not (by decide) (by decide) t), ← whole]
    exact mark

end Reckoner
