import Reckoner.Proofs.Evaluation.Slots
import Reckoner.Proofs.Evaluation.Leftmost
import Reckoner.Proofs.Evaluation.Spots
import Reckoner.Proofs.Evaluation.Wrapped

set_option autoImplicit false

namespace Reckoner

open Double

namespace Slot

variable {context : Context} {outer inner : Nat} {p q : Slot} {t u w before after argument tail : Text}
  {closed : Bool} {c : Char} {x : Float} {rank : Rank} {operation : Operation}

theorem Completes.of_argument (h : Completes outer inner (.ended false) t)
    (found : argument? t = some (argument, tail)) : Completes outer inner (.ended false) tail := by
  rw [argument?_eq_append found] at h
  obtain ⟨q, run, rest⟩ := completes_append.1 h
  rcases argument?_shape found with digits | ⟨sign, size, rfl, _⟩
  · by_cases some : argument = []
    · subst some
      cases run
      exact rest
    · rwa [run.of_row ⟨some, fun d member => isOperandChar_of_isArgumentChar (digits d member)⟩] at rest
  · rw [← List.append_assoc, ← List.cons_append] at run
    obtain ⟨_, _, close⟩ := run_append.1 run
    obtain ⟨_, next, ⟨⟩⟩ := run_cons.1 close
    rw [next.of_closeMark.2] at rest
    exact rest.reopened

/-- No call begins with the name of infinity, so there is at most one sign in front of a call. -/
theorem Run.signs_le_of_call {name : Text} (run : Run 1 1 p u q)
    (start : p.signs ≤ 1 ∨ (u ++ (name ++ t)).head? = some 'I') (bare : Letterless u)
    (nonempty : name ≠ []) (solved : solveCall context name argument = .ok x) : q.signs ≤ 1 := by
  rcases start with few | first
  · exact run.signs_le few Nat.one_pos
  · cases u with
    | nil =>
      have member : 'I' ∈ name := by
        cases name with
        | nil => contradiction
        | cons d name =>
          cases first
          exact .head _
      rw [solveCall, ofName?_of_mem member] at solved
      contradiction
    | cons d u =>
      cases first
      exact absurd (bare 'I' (.head _)) (by decide)

/-- The sign of a value finds room behind one more. -/
theorem exists_run_signText (few : p.signs ≤ 1) (negative : Bool) :
    ∃ q, Run 2 2 p (signText negative) q := by
  unfold signText
  split
  · obtain ⟨q, next⟩ := exists_next_of_sign (c := '-') (n := 2) rfl (Nat.lt_succ_of_le few)
    exact ⟨q, .cons next (.nil _)⟩
  · exact ⟨p, .nil _⟩

/-- With its calls solved it is a segment still. The induction is along its names; an infinite value may
stand behind two signs already, but it begins no call. -/
theorem Completes.solveCalls (h : Completes 1 1 p t) (start : p.signs ≤ 1 ∨ t.head? = some 'I')
    (value : (Reckoner.solveCalls context [] t).outcome = .ok w) : Completes 2 2 p w := by
  induction t using calls_induction generalizing p w with
  | letterless t bare =>
    rw [solveCalls_of_letterless bare] at value
    cases value
    exact h.mono (by decide) (by decide)
  | named front name t bare nonempty letters stop missed ih =>
    rw [solveCalls_of_name bare nonempty letters stop missed] at value
    obtain ⟨q, run, rest⟩ := completes_append.1 h
    obtain ⟨q', run', rest⟩ := completes_append.1 rest
    have row : IsRow name := ⟨nonempty, fun c member => isOperandChar_of_isAlpha (letters c member)⟩
    obtain rfl := run'.of_row row
    split at value
    · contradiction
    · rw [solveCalls_done] at value
      obtain ⟨v, solved, rfl⟩ := map_eq_ok value
      have behind := ih rest (.inl (Nat.zero_le 1)) solved
      rw [List.nil_append, List.append_assoc]
      exact completes_append.2 ⟨q, run.mono (by decide) (by decide),
        completes_append.2 ⟨_, run_row row q, behind⟩⟩
  | called front name t argument tail bare nonempty letters stop found ih ihInfinite =>
    rw [solveCalls_of_call bare nonempty letters stop found] at value
    obtain ⟨x, solved, value⟩ := bind_eq_ok value
    obtain ⟨q, run, rest⟩ := completes_append.1 h
    obtain ⟨q', run', rest⟩ := completes_append.1 rest
    have row : IsRow name := ⟨nonempty, fun c member => isOperandChar_of_isAlpha (letters c member)⟩
    obtain rfl := run'.of_row row
    have rest := rest.of_argument found
    have few := run.signs_le_of_call start bare nonempty solved
    split at value
    · rw [solveCalls_done] at value
      obtain ⟨v, solved', rfl⟩ := map_eq_ok value
      have infinity : IsRow infinityName := ⟨by decide, by unfold Solid; decide⟩
      obtain ⟨q', run'⟩ := exists_run_signText few (isNegative x)
      have behind := ihInfinite (p := q') (completes_append.2 ⟨_, run_row infinity q', rest⟩)
        (.inr rfl) solved'
      rw [List.nil_append, List.append_assoc]
      exact completes_append.2 ⟨q, run.mono (by decide) (by decide),
        completes_append.2 ⟨q', run', behind⟩⟩
    · rw [solveCalls_done] at value
      obtain ⟨v, solved', rfl⟩ := map_eq_ok value
      have behind := ih rest (.inl (Nat.zero_le 1)) solved'
      rw [List.nil_append, List.append_assoc]
      exact completes_append.2 ⟨q, run.mono (by decide) (by decide),
        completes_append.2 ⟨_, run_plain (solveCall_number solved) (Nat.lt_succ_of_le few), behind⟩⟩

theorem Completes.of_closed {row : Text} (h : IsRow row)
    (closing : t = [closeMark] ∨ t = [] ∧ Stops u)
    (rest : Completes outer inner p (row ++ (t ++ u))) : Completes outer inner (.ended false) u := by
  obtain ⟨q, run, rest⟩ := completes_append.1 rest
  obtain rfl := run.of_row h
  rcases closing with rfl | ⟨rfl, _⟩
  · obtain ⟨_, next, rest⟩ := completes_cons.1 rest
    rw [next.of_closeMark.2] at rest
    exact rest.reopened
  · exact rest

/-- A value in the place of an operation leaves a segment, once signs are reduced. -/
theorem Completes.spliced (h : Completes outer inner p t)
    (found : findOperation? rank t = some (before, operation, after)) (number : x.isNaN = false) :
    Completes 1 1 p.unsigned (Reckoner.reduceSigns (before ++ plain x ++ after)) := by
  obtain ⟨u, rfl, here, _⟩ := findOperation?_leftmost found
  obtain ⟨v, left, right⟩ := operationAt?_operands here
  obtain ⟨opening, row, closing, shape, h', closes⟩ := rightOperand?_shape right
  obtain rfl := (isOneRow_of_rightOperand? right).1
  obtain rfl := (isOneRow_of_leftOperand? left).1
  obtain ⟨q, run, rest⟩ := completes_append.1 h
  obtain ⟨_, _, rest⟩ := completes_append.1 rest
  obtain ⟨_, _, rest⟩ := completes_cons.1 rest
  rw [shape, List.append_assoc, List.append_assoc] at rest
  obtain ⟨_, _, rest⟩ := completes_append.1 rest
  have behind := rest.of_closed h' closes
  -- Any number of signs may stand in front of the value.
  have more : q.signs < outer + inner + q.signs + 1 := by omega
  have value := (run_plain number more).append (.nil _)
  rw [List.append_nil] at value
  have whole : Completes (outer + inner + q.signs + 1) (outer + inner + q.signs + 1) p
      (before ++ (plain x ++ after)) :=
    completes_append.2 ⟨q, run.mono (by omega) (by omega),
      completes_append.2 ⟨_, value, behind.mono (by omega) (by omega)⟩⟩
  rw [List.append_assoc]
  exact whole.reduceSigns

theorem Completes.solveRank (h : Completes 2 2 (.free 0) t)
    (value : (Reckoner.solveRank context rank t).outcome = .ok w) : Completes 2 2 (.free 0) w := by
  fun_induction Reckoner.solveRank context rank t with
  | case1 =>
    cases value
    exact h
  | case2 t before operation after found ih =>
    rw [Traced.outcome_bind] at value
    obtain ⟨x, solved, value⟩ := bind_eq_ok value
    have solved : operation.solve context = .ok x := by
      rwa [Traced.outcome_ofExcept] at solved
    refine ih x ?_ value
    exact (h.spliced found (Operation.solve_number solved)).mono (by decide) (by decide)

theorem Completes.solveOperations (h : Completes 2 2 (.free 0) t)
    (value : (Reckoner.solveOperations context t).outcome = .ok w) : Completes 2 2 (.free 0) w := by
  rw [solveOperations_outcome] at value
  obtain ⟨u, first, value⟩ := bind_eq_ok value
  obtain ⟨v, second, third⟩ := bind_eq_ok value
  exact ((h.solveRank first).solveRank second).solveRank third

/-- The value of a segment is an operand of the segment around it. -/
theorem Completes.solveSegment (h : Completes 1 1 (.free 0) t) (enter : Next 1 1 p openMark (.opened 0))
    (value : (Reckoner.solveSegment context t).outcome = .ok w) : Run 1 1 p w (.ended true) := by
  rw [solveSegment_outcome] at value
  obtain ⟨u, calls, value⟩ := bind_eq_ok value
  obtain ⟨v, operations, rfl⟩ := map_eq_ok value
  have segment := h.solveCalls (.inl (Nat.zero_le 1)) calls
  exact (segment.solveOperations (mapError_eq_ok.1 operations)).markValue enter

/-- The place behind a character of an expression, where groups have given way to their values. -/
def past (c : Char) : Slot :=
  if isOperandChar c then .ended false
  else if c = ')' then .ended true
  else if isSign c then .free 1
  else .free 0

variable {a b : Char}

theorem past_operand (h : isOperandChar c = true) : past c = .ended false := by
  simp [past, h]

theorem past_sign (h : isSign c = true) : past c = .free 1 := by
  rcases isSign_iff.1 h with rfl | rfl <;> rfl

theorem past_binary (h : isBinaryOnly c = true) : past c = .free 0 := by
  obtain ⟨operator, product, rfl⟩ := exists_operator_of_isBinaryOnly h
  cases operator <;> first | rfl | contradiction

theorem enter_past (c : Char) : Next 1 1 (past c) openMark (.opened 0) := by
  unfold past
  split
  · exact .behind
  · split
    · exact .behind
    · split
      · exact .enter le_rfl
      · exact .enter (Nat.zero_le 1)

/-- What the character is that another one can follow. -/
theorem past_cases (spelled : isCanonicalChar a = true) : (∃ closed, past a = .ended closed) ∨
    (isSign a = true ∧ past a = .free 1) ∨ ((isBinaryOnly a = true ∨ a = '(') ∧ past a = .free 0) := by
  rcases canonicalChar_cases spelled with rfl | rfl | rfl | digit | letter | sign | binary
  · exact .inl ⟨_, rfl⟩
  · exact .inr (.inr ⟨.inr rfl, rfl⟩)
  · exact .inl ⟨_, rfl⟩
  · exact .inl ⟨_, past_operand (by simp [isOperandChar, digit])⟩
  · exact .inl ⟨_, past_operand (isOperandChar_of_isAlpha letter)⟩
  · exact .inr (.inl ⟨sign, past_sign sign⟩)
  · exact .inr (.inr ⟨.inl binary, past_binary binary⟩)

theorem fitsAfterBinary_of_follows (binary : isBinaryOnly a = true ∨ a = '(')
    (next : follows a b = true) : fitsAfterBinary b = true := by
  rcases binary with binary | rfl
  · rwa [follows_binary binary] at next
  · exact next

/-- The character that follows another one leads from the place behind this one. -/
theorem next_of_follows (spelled : isCanonicalChar a = true) (next : follows a b = true)
    (open' : b ≠ '(') (close : b ≠ ')') : Next 1 1 (past a) b (past b) := by
  rcases canonicalChar_cases (isCanonicalChar_of_follows spelled next) with
    rfl | rfl | rfl | digit | letter | sign | binary
  · exact .operand rfl
  · contradiction
  · contradiction
  · have operand : isOperandChar b = true := by simp [isOperandChar, digit]
    rw [past_operand operand]
    exact .operand operand
  · have operand := isOperandChar_of_isAlpha letter
    rw [past_operand operand]
    exact .operand operand
  · rw [past_sign sign]
    rcases past_cases spelled with ⟨closed, place⟩ | ⟨sign', place⟩ | ⟨_, place⟩
    · rw [place]
      exact .sum sign
    · rw [follows_sign sign'] at next
      rcases isSign_iff.1 sign with rfl | rfl <;> contradiction
    · rw [place]
      exact .sign sign Nat.one_pos
  · rw [past_binary binary]
    have other : ∀ kind : Char → Bool, kind = fitsAfterSign ∨ kind = fitsAfterBinary → kind b = false := by
      obtain ⟨operator, product, rfl⟩ := exists_operator_of_isBinaryOnly binary
      rintro _ (rfl | rfl) <;> cases operator <;> first | rfl | contradiction
    rcases past_cases spelled with ⟨closed, place⟩ | ⟨sign', _⟩ | ⟨binary', _⟩
    · rw [place]
      exact .binary binary
    · rw [follows_sign sign', other _ (.inl rfl)] at next
      contradiction
    · have fits := fitsAfterBinary_of_follows binary' next
      rw [other _ (.inr rfl)] at fits
      contradiction

theorem ended_of_follows (spelled : isCanonicalChar a = true) (next : follows a ')' = true) :
    ∃ closed, past a = .ended closed := by
  rcases past_cases spelled with ended | ⟨sign, _⟩ | ⟨binary, _⟩
  · exact ended
  · rw [follows_sign sign] at next
    contradiction
  · have fits := fitsAfterBinary_of_follows binary next
    contradiction

end Slot

/-- Solving the groups of a text has one result. -/
theorem Flattens.unique {context : Context} {t : Text} {flat flat' : Except Failure Text}
    (h : Flattens context t flat) (h' : Flattens context t flat') : flat = flat' := by
  have shown {flat : Except Failure Text} (h : Flattens context t flat) :
      (Reckoner.solveGroups context [] [] t).outcome = flat.map fun u => '(' :: u := by
    have whole := h [] [] []
    rw [List.append_nil] at whole
    rw [whole]
    cases flat with
    | error e => rfl
    | ok u =>
      simp only [Except.bind, Except.map]
      rw [Reckoner.solveGroups]
      simp [enclose]
  have both := (shown h).symm.trans (shown h')
  cases flat with
  | error e =>
    cases flat' with
    | error e' =>
      cases both
      rfl
    | ok u' => contradiction
  | ok u =>
    cases flat' with
    | error e' => contradiction
    | ok u' =>
      cases both
      rfl

open Slot in
/-- Operands and operators take turns in a text of which the groups are solved. The induction is on the
groups; their values are operands. -/
theorem Balanced.run {context : Context} {t s : Text} {a : Char} (h : Balanced t)
    (chain : List.IsChain (fun a b => follows a b = true) (a :: t)) (spelled : isCanonicalChar a = true)
    (flat : Flattens context t (.ok s)) : Run 1 1 (past a) s (past (t.getLastD a)) ∧
      isCanonicalChar (t.getLastD a) = true := by
  induction h generalizing a s with
  | nil =>
    obtain rfl : s = [] := by
      cases flat.unique (flattens_of_flat List.not_mem_nil List.not_mem_nil)
      rfl
    exact ⟨.nil _, spelled⟩
  | @char c t open' close rest ih =>
    obtain ⟨next, chain⟩ := List.isChain_cons_cons.1 chain
    obtain ⟨flat', whole⟩ := rest.flattens context
    have first : Flattens context [c] (.ok [c]) :=
      flattens_of_flat (by simpa using Ne.symm open') (by simpa using Ne.symm close)
    obtain ⟨_, value, same⟩ := bind_eq_ok (flat.unique (first.append whole)).symm
    cases value
    obtain ⟨u, rfl, rfl⟩ := map_eq_ok same
    obtain ⟨run, last⟩ := ih chain (isCanonicalChar_of_follows spelled next) whole
    rw [List.getLastD_cons]
    exact ⟨.cons (next_of_follows spelled next open' close) run, last⟩
  | @group t u inner rest ih ih' =>
    obtain ⟨_, chain⟩ := List.isChain_cons_cons.1 chain
    obtain ⟨flat', inside⟩ := inner.flattens context
    obtain ⟨flat'', behind⟩ := rest.flattens context
    have whole := inside.group.append behind
    rw [List.cons_append, List.append_assoc] at whole
    obtain ⟨w, value, same⟩ := bind_eq_ok (flat.unique whole).symm
    obtain ⟨v, rfl, value⟩ := bind_eq_ok value
    obtain ⟨w', rfl, rfl⟩ := map_eq_ok same
    rw [← List.cons_append] at chain
    obtain ⟨run, last⟩ := ih chain.left_of_append (by decide) inside
    obtain ⟨run', last'⟩ := ih' chain.right_of_append (by decide) behind
    have closes : follows (t.getLastD '(') ')' = true :=
      (List.isChain_append.1 chain).2.2 _ (by simp [List.getLast?_cons]) ')' rfl
    obtain ⟨closed, place⟩ := ended_of_follows last closes
    rw [place] at run
    have operand := Completes.solveSegment ⟨closed, run⟩ (enter_past a) value
    have final : ('(' :: (t ++ ')' :: u)).getLastD a = u.getLastD ')' := by
      simp [List.getLast?_cons, List.getLast?_append]
    rw [final]
    exact ⟨operand.append run', last'⟩

end Reckoner
