import Reckoner.Proofs.Evaluation.CallOperand
import Reckoner.Proofs.Evaluation.Recursion
import Reckoner.Proofs.Evaluation.Swap.Calls
import Reckoner.Proofs.Text.Runs

set_option autoImplicit false

/- The evaluation as it proceeds, in loops that rewrite a text until nothing is left to do: one over the
calls, one for each rank of operations, and one over the groups. Each of them ends on every text, with
what the recursive definitions give. The length of the text is no bound, since a value can be longer
than what it replaces. What goes down with every pass is the weight of the text behind the first
letter, the number of rows of operand characters, and the number of opening parentheses. -/
namespace Reckoner

open Double

/-- What one pass through the body of a loop comes to. -/
inductive Pass (σ ε α : Type) where
  | stop (a : α)
  | fail (e : ε)
  | next (s : σ)

/-- From a state on a loop ends in this way, after it has gone on or failed this number of times. -/
inductive Runs {σ ε α : Type} (pass : σ → Pass σ ε α) : σ → Nat → Except ε α → Prop
  | stop {s : σ} {a : α} (stops : pass s = .stop a) : Runs pass s 0 (.ok a)
  | fail {s : σ} {e : ε} (fails : pass s = .fail e) : Runs pass s 1 (.error e)
  | next {s s' : σ} {n : Nat} {r : Except ε α} (goes : pass s = .next s') (later : Runs pass s' n r) :
    Runs pass s (n + 1) r

section Loops

variable {σ ε α : Type} {pass : σ → Pass σ ε α}

def Pass.follow (f : σ → Except ε α) : Pass σ ε α → Except ε α
  | stop a => .ok a
  | fail e => .error e
  | next s => f s

/-- A pass takes something off a measure, unless the loop is left. -/
def Pass.Pays (before : Nat) (state : σ → Nat) (result : α → Nat) : Pass σ ε α → Prop
  | stop a => result a ≤ before
  | fail _ => 0 < before
  | next s => state s < before

/-- A loop whose passes all take something off a measure ends, and the measure bounds their number
together with what is left of it. -/
theorem exists_runs {f : σ → Except ε α} {state : σ → Nat} {result : α → Nat}
    (unroll : ∀ s, f s = (pass s).follow f) (pays : ∀ s, (pass s).Pays (state s) state result)
    (s : σ) : ∃ n, Runs pass s n (f s) ∧ n ≤ state s ∧ ∀ a, f s = .ok a → n + result a ≤ state s := by
  induction measured : state s using Nat.strongRecOn generalizing s with
  | ind m ih =>
    subst measured
    have here := pays s
    rw [unroll s]
    cases body : pass s with
    | stop a =>
      rw [body] at here
      refine ⟨0, .stop body, Nat.zero_le _, ?_⟩
      rintro _ ⟨⟩
      rw [Nat.zero_add]
      exact here
    | fail e =>
      rw [body] at here
      exact ⟨1, .fail body, here, nofun⟩
    | next s' =>
      rw [body] at here
      have less : state s' < state s := here
      obtain ⟨n, later, bound, left⟩ := ih (state s') less s' rfl
      refine ⟨n + 1, .next body later, by omega, fun a value => ?_⟩
      have rest := left a value
      omega

end Loops

variable {context : Context} {t u done rest : Text} {rank : Rank} {p q name argument tail : Text}

/-- One step of the search for calls, behind what it has passed. The value of a call is put in its
place, and the search goes on at the start of the value. -/
def callsPass (context : Context) : Text × Text → Pass (Text × Text) Failure Text := fun (done, rest) =>
  match rest.dropWhile (!·.isAlpha) with
  | [] => .stop (done ++ rest)
  | c :: r =>
    let before := done ++ rest.takeWhile (!·.isAlpha)
    let name := c :: r.takeWhile Char.isAlpha
    let after := r.dropWhile Char.isAlpha
    match argument? after with
    | none =>
      if (Function.ofName? name).isSome && !context.bindings.has name then
        .fail (.fault (.missingArgument name))
      else .next (before ++ name, after)
    | some (argument, tail) =>
      match solveCall context name argument with
      | .error e => .fail e
      | .ok x => .next (before, plain x ++ tail)

theorem callsPass_of_letterless (bare : Letterless t) :
    callsPass context (done, t) = .stop (done ++ t) := by
  have dropped := dropWhile_letterless bare []
  rw [List.append_nil, List.dropWhile_nil] at dropped
  unfold callsPass
  simp only [dropped]

theorem callsPass_of_name (bare : Letterless p) (nonempty : name ≠ []) (letters : Letters name)
    (stop : startsWith Char.isAlpha t = false) (missed : argument? t = none) :
    callsPass context (done, p ++ (name ++ t)) =
      if (Function.ofName? name).isSome && !context.bindings.has name then
        .fail (.fault (.missingArgument name))
      else .next (done ++ p ++ name, t) := by
  cases name with
  | nil => contradiction
  | cons c r =>
    have inner : Letters r := fun d member => letters d (.tail _ member)
    unfold callsPass
    simp only [dropWhile_name bare letters, takeWhile_name bare letters, takeWhile_letters inner stop,
      dropWhile_letters inner stop, missed]

theorem callsPass_of_call (bare : Letterless p) (nonempty : name ≠ []) (letters : Letters name)
    (stop : startsWith Char.isAlpha t = false) (found : argument? t = some (argument, tail)) :
    callsPass context (done, p ++ (name ++ t)) =
      match solveCall context name argument with
      | .error e => .fail e
      | .ok x => .next (done ++ p, plain x ++ tail) := by
  cases name with
  | nil => contradiction
  | cons c r =>
    have inner : Letters r := fun d member => letters d (.tail _ member)
    unfold callsPass
    simp only [dropWhile_name bare letters, takeWhile_name bare letters, takeWhile_letters inner stop,
      dropWhile_letters inner stop, found]

theorem letterless_lead {lead : Text} (sign : IsLead lead) : Letterless lead := by
  unfold Letterless
  rcases sign with rfl | rfl | rfl <;> decide

theorem letterless_plain {x : Float} (number : x.isNaN = false) (finite : ¬ x.isInf = true) :
    Letterless (plain x) := by
  have size : Letterless (sizeText (magnitude x)) := by
    rw [isInf_iff] at finite
    unfold sizeText
    rw [if_neg finite]
    split
    · unfold Letterless
      decide
    · exact letterless_positional _
  rw [plain_eq number]
  exact List.forall_mem_append.2 ⟨letterless_lead (isLead_valueSign x), size⟩

theorem letterless_signText (negative : Bool) : Letterless (signText negative) := by
  unfold Letterless
  cases negative <;> decide

theorem solveCalls_plain {x : Float} (number : x.isNaN = false) :
    (solveCalls context done (plain x ++ tail)).outcome =
      if x.isInf then
        (solveCalls context (done ++ signText (isNegative x)) (infinityName ++ tail)).outcome
      else (solveCalls context (done ++ plain x) tail).outcome := by
  by_cases infinite : x.isInf = true
  · rw [if_pos infinite, plain_of_isInf infinite, List.append_assoc,
      solveCalls_append (letterless_signText _)]
  · rw [if_neg infinite, solveCalls_append (letterless_plain number infinite)]

/-- The function that solves calls does one step and then the rest. -/
theorem solveCalls_follow (state : Text × Text) :
    (solveCalls context state.1 state.2).outcome =
      (callsPass context state).follow fun s => (solveCalls context s.1 s.2).outcome := by
  obtain ⟨done, rest⟩ := state
  rcases letterless_or_name rest with bare | ⟨p, name, t, rfl, bare, nonempty, letters, stop⟩
  · rw [callsPass_of_letterless bare, solveCalls_of_letterless bare]
    rfl
  · cases found : argument? t with
    | none =>
      rw [callsPass_of_name bare nonempty letters stop found,
        solveCalls_of_name bare nonempty letters stop found]
      split <;> rfl
    | some call =>
      obtain ⟨argument, tail⟩ := call
      rw [callsPass_of_call bare nonempty letters stop found,
        solveCalls_of_call bare nonempty letters stop found]
      cases solved : solveCall context name argument with
      | error e => rfl
      | ok x => exact (solveCalls_plain (solveCall_number solved)).symm

/-- What is left to be searched from the next letter on. -/
def callsLeft (rest : Text) : Nat := callSize (rest.dropWhile (!·.isAlpha))

theorem callsLeft_le (t : Text) : callsLeft t ≤ callSize t := by
  have whole : callSize t = callSize (t.takeWhile (!·.isAlpha)) + callsLeft t := by
    rw [callsLeft, ← callSize_append, List.takeWhile_append_dropWhile]
  omega

theorem callsLeft_append (bare : Letterless p) (t : Text) : callsLeft (p ++ t) = callsLeft t := by
  unfold callsLeft
  rw [dropWhile_letterless bare]

theorem callsLeft_name (bare : Letterless p) (nonempty : name ≠ []) (letters : Letters name)
    (t : Text) : callsLeft (p ++ (name ++ t)) = callSize name + callSize t := by
  cases name with
  | nil => contradiction
  | cons c r =>
    unfold callsLeft
    rw [dropWhile_name bare letters, ← List.cons_append, callSize_append]

/-- The value of a call has no letters, or no more than the name of infinity. -/
theorem callsLeft_plain {x : Float} (number : x.isNaN = false) (tail : Text) :
    callsLeft (plain x ++ tail) ≤ callSize tail + 8 := by
  have bound := callsLeft_le tail
  by_cases infinite : x.isInf = true
  · have eight : callSize infinityName = 8 := by decide
    rw [plain_of_isInf infinite, List.append_assoc,
      callsLeft_name (letterless_signText _) (by decide) letters_infinityName]
    omega
  · rw [callsLeft_append (letterless_plain number infinite)]
    omega

theorem callsPass_pays (state : Text × Text) :
    (callsPass context state).Pays (callsLeft state.2) (fun s => callsLeft s.2) fun _ => 0 := by
  obtain ⟨done, rest⟩ := state
  rcases letterless_or_name rest with bare | ⟨p, name, t, rfl, bare, nonempty, letters, stop⟩
  · rw [callsPass_of_letterless bare]
    exact Nat.zero_le _
  · have some := callSize_pos nonempty
    dsimp only
    rw [callsLeft_name bare nonempty letters]
    cases found : argument? t with
    | none =>
      have rest := callsLeft_le t
      rw [callsPass_of_name bare nonempty letters stop found]
      split
      · show 0 < callSize name + callSize t
        omega
      · show callsLeft t < callSize name + callSize t
        omega
    | some call =>
      obtain ⟨argument, tail⟩ := call
      have lighter := callSize_tail found
      rw [callsPass_of_call bare nonempty letters stop found]
      cases solved : solveCall context name argument with
      | error e =>
        show 0 < callSize name + callSize t
        omega
      | ok x =>
        have value := callsLeft_plain (solveCall_number solved) tail
        show callsLeft (plain x ++ tail) < callSize name + callSize t
        omega

/-- The leftmost operation of a rank gives way to its value, and signs are reduced. -/
def rankPass (context : Context) (rank : Rank) (t : Text) : Pass Text Fault Text :=
  match findOperation? rank t with
  | none => .stop t
  | some (before, operation, after) =>
    match operation.solve context with
    | .error e => .fail e
    | .ok x => .next (reduceSigns (before ++ plain x ++ after))

theorem solveRank_follow (rank : Rank) (t : Text) : (solveRank context rank t).outcome =
    (rankPass context rank t).follow fun t => (solveRank context rank t).outcome := by
  unfold rankPass
  cases found : findOperation? rank t with
  | none => exact solveRank_of_none found
  | some operation =>
    obtain ⟨before, operation, after⟩ := operation
    rw [solveRank_of_some found]
    dsimp only
    cases operation.solve context <;> rfl

/-- An operation has two rows, and they give way to one. -/
theorem rankPass_pays (rank : Rank) (t : Text) : (rankPass context rank t).Pays
    (operandRuns false t - 1) (fun t => operandRuns false t - 1) fun t => operandRuns false t - 1 := by
  unfold rankPass
  cases found : findOperation? rank t with
  | none => exact Nat.le_refl _
  | some operation =>
    obtain ⟨before, operation, after⟩ := operation
    have two := operandRuns_of_found found
    dsimp only
    cases operation.solve context with
    | error e =>
      show 0 < operandRuns false t - 1
      omega
    | ok x =>
      have less := operandRuns_solved_lt found x
      show operandRuns false _ - 1 < operandRuns false t - 1
      omega

/-- The loops for some ranks, one after the other, end after this number of operations. -/
inductive RunsRanks (context : Context) : List Rank → Text → Nat → Except Fault Text → Prop
  | nil (t : Text) : RunsRanks context [] t 0 (.ok t)
  | fail {rank : Rank} {ranks : List Rank} {t : Text} {n : Nat} {e : Fault}
    (fails : Runs (rankPass context rank) t n (.error e)) :
    RunsRanks context (rank :: ranks) t n (.error e)
  | next {rank : Rank} {ranks : List Rank} {t u : Text} {n m : Nat} {r : Except Fault Text}
    (solves : Runs (rankPass context rank) t n (.ok u)) (later : RunsRanks context ranks u m r) :
    RunsRanks context (rank :: ranks) t (n + m) r

theorem exists_runsRanks (ranks : List Rank) (t : Text) :
    ∃ n, RunsRanks context ranks t n
        (ranks.foldlM (fun t rank => solveRank context rank t) t).outcome ∧
      n ≤ operandRuns false t - 1 := by
  induction ranks generalizing t with
  | nil => exact ⟨0, .nil t, Nat.zero_le _⟩
  | cons rank ranks ih =>
    obtain ⟨n, runs, bound, left⟩ := exists_runs (solveRank_follow rank) (rankPass_pays rank) t
    rw [List.foldlM_cons, Traced.outcome_bind]
    cases solved : (solveRank context rank t).outcome with
    | error e =>
      rw [solved] at runs
      exact ⟨n, .fail runs, bound⟩
    | ok u =>
      rw [solved] at runs
      obtain ⟨m, later, rest⟩ := ih u
      have first := left u solved
      exact ⟨n + m, .next runs later, by omega⟩

def rows (t : Text) : List Text := (t.splitOnP (!isOperandChar ·)).filter (!·.isEmpty)

theorem operandRuns_eq_length (t : Text) : operandRuns false t = (rows t).length ∧
    operandRuns true t = ((t.splitOnP (!isOperandChar ·)).tail.filter (!·.isEmpty)).length := by
  induction t with
  | nil => exact ⟨rfl, rfl⟩
  | cons c r ih =>
    obtain ⟨first, others, split⟩ := List.exists_cons_of_ne_nil
      (List.splitOnP_ne_nil (!isOperandChar ·) r)
    unfold rows at ih ⊢
    rw [List.splitOnP_cons_eq_if_modifyHead]
    by_cases operand : isOperandChar c = true
    · rw [split] at ih ⊢
      simp [operandRuns, operand, ih.2, Nat.add_comm]
    · simp [operandRuns, operand, ih.1]

instance (t : Text) : Decidable (IsEnclosed t) :=
  inferInstanceAs (Decidable (_ ∧ _))

/-- While the text is enclosed by parentheses, the segment between the first closing one and the last
opening one before it gives way to its value. -/
def groupsPass (context : Context) (t : Text) : Pass Text Failure Text :=
  if IsEnclosed t then
    let front := t.takeWhile (· != ')')
    let inside := (front.reverse.takeWhile (· != '(')).reverse
    let before := (front.reverse.dropWhile (· != '(')).tail.reverse
    let rest := (t.dropWhile (· != ')')).tail
    match (solveSegment context inside).outcome with
    | .error e => .fail e
    | .ok value => .next (before ++ value ++ rest)
  else .stop t

theorem groupsPass_step {before inside : Text}
    (enclosed : IsEnclosed (before ++ '(' :: (inside ++ ')' :: rest))) (front : ')' ∉ before)
    (open' : '(' ∉ inside) (close : ')' ∉ inside) :
    groupsPass context (before ++ '(' :: (inside ++ ')' :: rest)) =
      match (solveSegment context inside).outcome with
      | .error e => .fail e
      | .ok value => .next (before ++ value ++ rest) := by
  have shape : before ++ '(' :: (inside ++ ')' :: rest) = (before ++ '(' :: inside) ++ ')' :: rest := by
    simp
  have reversed : (before ++ '(' :: inside).reverse = inside.reverse ++ '(' :: before.reverse := by
    simp
  have absent : ')' ∉ before ++ '(' :: inside := by
    simp [front, close]
  have right := cut_at absent rest
  have left := cut_at (fun member => open' (List.mem_reverse.1 member)) before.reverse
  unfold groupsPass
  rw [if_pos enclosed, shape]
  simp only [right.1, right.2, reversed, left.1, left.2, List.reverse_reverse, List.tail_cons]

theorem LoopsTo.exists_runs {solved : Traced Failure Text} (h : LoopsTo context t solved) :
    ∃ n, Runs (groupsPass context) t n solved.outcome ∧ n ≤ t.count '(' := by
  induction h with
  | @done t bare =>
    refine ⟨0, .stop ?_, Nat.zero_le _⟩
    unfold groupsPass
    rw [if_neg bare]
  | @step before inside rest next enclosed front open' close loops ih =>
    have step : groupsPass context _ = _ := groupsPass_step enclosed front open' close
    have shape : (before ++ '(' :: (inside ++ ')' :: rest)).count '(' =
        before.count '(' + (rest.count '(' + 1) := by
      rw [List.count_append, List.count_cons_self, List.count_append,
        List.count_eq_zero_of_not_mem open', List.count_cons_of_ne (by decide), Nat.zero_add]
    rw [Traced.outcome_bind, Traced.outcome_bind, Traced.outcome_emit, shape]
    simp only [Except.bind]
    cases solved : (solveSegment context inside).outcome with
    | error e =>
      rw [solved] at step
      exact ⟨1, .fail step, by omega⟩
    | ok value =>
      rw [solved] at step
      obtain ⟨n, later, bound⟩ := ih value solved
      have flat := (solveSegment_flat open' close solved).1
      rw [List.count_append, List.count_append, List.count_eq_zero_of_not_mem flat] at bound
      rw [← List.append_assoc] at later
      exact ⟨n + 1, .next step later, by omega⟩

/-- The evaluation ends on every text. The calls of a text are solved in finitely many steps, its
operations in fewer than it has rows of operand characters, and its groups in as many as it has
opening parentheses and one more. -/
theorem evaluation_ends (context : Context) (t : Text) :
    (∃ n, Runs (callsPass context) ([], t) n (solveCalls context [] t).outcome) ∧
    (∃ n, RunsRanks context Rank.all t n (solveOperations context t).outcome ∧
      n ≤ (rows t).length - 1) ∧
    ∃ n value, Runs (groupsPass context) ('(' :: (t ++ [')'])) n value ∧ n ≤ t.count '(' + 1 ∧
      (solveExpression context t).outcome =
        value.bind fun u => (resolveOperand context u).mapError .fault := by
  refine ⟨?_, ?_, ?_⟩
  · obtain ⟨n, runs, _⟩ := exists_runs solveCalls_follow callsPass_pays ([], t)
    exact ⟨n, runs⟩
  · rw [← (operandRuns_eq_length t).1]
    exact exists_runsRanks Rank.all t
  · have loops : LoopsTo context ('(' :: (t ++ [')'])) (solveGroups context [] [] (t ++ [')'])) :=
      loopsTo_solveGroups [] [] (t ++ [')']) (by simp) (by simp)
    obtain ⟨n, runs, bound⟩ := loops.exists_runs
    refine ⟨n, _, runs, ?_, solveExpression_outcome t⟩
    rw [List.count_cons_self, List.count_append] at bound
    have last : [')'].count '(' = 0 := by decide
    omega

end Reckoner
