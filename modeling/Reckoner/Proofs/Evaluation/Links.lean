import Reckoner.Evaluation.Segment
import Reckoner.Proofs.Evaluation.Value
import Reckoner.Proofs.Outcome
import Reckoner.Proofs.Traced

set_option autoImplicit false

/- Segments as chains of links. A link is an operand with a sign in front of it and, where the sign is
not itself the operator, the operator before that. What a rank does to the text of a chain is told
here as a fold over its links, in which the sign of every intermediate value moves to the lead. -/
namespace Reckoner

open Double

/-- An operand with what stands in front of it. Without `glue` the lead is the operator. -/
structure Link where
  glue : Option Operator
  lead : Text
  operand : Text

namespace Link

def symbol (l : Link) : Text :=
  match l.glue with
  | none => []
  | some operator => [operator.symbol]

def body (l : Link) : Text := l.lead ++ l.operand

/-- Whether the operator in front is solved in this rank, which is not that of sums. -/
def joins (rank : Rank) (l : Link) : Bool :=
  match l.glue with
  | none => false
  | some operator => operator.rank = rank

/-- A link that a chain can begin with. -/
structure Valid (l : Link) : Prop where
  lead : IsLead l.lead
  tame : IsTameOperand l.operand
  glue : ∀ operator, l.glue = some operator → operator.rank ≠ .sum

theorem Valid.operand {l : Link} (h : l.Valid) : IsOperand l.operand := h.tame.operand

/-- A link that can stand behind another one. -/
structure Joined (l : Link) : Prop extends l.Valid where
  joint : l.glue = none → l.lead ≠ []

end Link

def linksText : List Link → Text
  | [] => []
  | l :: ls => l.symbol ++ (l.body ++ linksText ls)

/-- The sign that a number is written with. -/
def valueSign (x : Float) : Text := if magnitude x = 0 then [] else signText (isNegative x)

/-- The link with the value of an operation in the place of its operand. -/
def Link.splice (l : Link) (x : Float) : Link :=
  ⟨l.glue, reduceSigns (l.lead ++ valueSign x), sizeText (magnitude x)⟩

def passLinks (context : Context) (rank : Rank) (l : Link) : List Link → Except Fault (List Link)
  | [] => .ok [l]
  | next :: ls =>
    match next.glue with
    | none => do return l :: (← passLinks context rank next ls)
    | some operator =>
      if operator.rank = rank then do
        let x ← Operation.solve context ⟨l.operand, operator, next.body⟩
        passLinks context rank (l.splice x) ls
      else do return l :: (← passLinks context rank next ls)

def leadOperator (lead : Text) : Operator := if lead = ['-'] then .subtract else .add

/-- The sum of a chain, from left to right. -/
def sumLinks (context : Context) (l : Link) : List Link → Except Fault Link
  | [] => .ok l
  | next :: ls => do
    let x ← Operation.solve context ⟨l.body, leadOperator next.lead, next.operand⟩
    sumLinks context ⟨none, valueSign x, sizeText (magnitude x)⟩ ls

variable {context : Context} {rank : Rank} {l next : Link} {ls : List Link} {x : Float}
  {lead o t before : Text}

theorem linksText_cons (l : Link) (ls : List Link) :
    linksText (l :: ls) = l.symbol ++ (l.body ++ linksText ls) := rfl

theorem Link.symbol_of_none (glue : l.glue = none) : l.symbol = [] := by
  unfold Link.symbol
  rw [glue]

theorem Link.symbol_of_some {operator : Operator} (glue : l.glue = some operator) :
    l.symbol = [operator.symbol] := by
  unfold Link.symbol
  rw [glue]

theorem linksText_append (ls more : List Link) :
    linksText (ls ++ more) = linksText ls ++ linksText more := by
  induction ls with
  | nil => rfl
  | cons l ls ih => simp only [List.cons_append, linksText, ih, List.append_assoc]

theorem isLead_signText (negative : Bool) : IsLead (signText negative) := by
  cases negative with
  | true => exact .inr (.inr rfl)
  | false => exact .inl rfl

theorem isLead_valueSign (x : Float) : IsLead (valueSign x) := by
  unfold valueSign
  split
  · exact isLead_nil
  · exact isLead_signText _

theorem plain_eq (number : x.isNaN = false) :
    plain x = valueSign x ++ sizeText (magnitude x) := by
  unfold valueSign
  by_cases zero : magnitude x = 0
  · rw [if_pos zero, plain_of_zero zero, zero, List.nil_append]
  · rw [if_neg zero, plain_of_nonzero number zero]

theorem mem_plain {c : Char} {x : Float} (member : c ∈ plain x) :
    isSign c = true ∨ isOperandChar c = true := by
  by_cases number : x.isNaN = true
  · rw [plain, if_pos number] at member
    exact .inr (by revert c; decide)
  · rw [Bool.not_eq_true] at number
    rw [plain_eq number] at member
    rcases List.mem_append.1 member with sign | size
    · rcases isLead_valueSign x with h | h | h <;> rw [h] at sign
      · cases sign
      · rw [List.mem_singleton.1 sign]
        exact .inl rfl
      · rw [List.mem_singleton.1 sign]
        exact .inl rfl
    · exact .inr ((isTame_sizeText _).row.2 c size)

theorem plain_one : plain 1 = ['1'] := by
  have sign : valueSign 1 = [] := by decide
  rw [plain_eq (by decide), sign, sizeText_one]
  rfl

theorem Operation.solve_number {operation : Operation}
    (solved : operation.solve context = .ok x) : x.isNaN = false := by
  unfold Operation.solve at solved
  obtain ⟨a, _, solved⟩ := bind_eq_ok solved
  obtain ⟨b, _, solved⟩ := bind_eq_ok solved
  obtain ⟨y, _, solved⟩ := bind_eq_ok solved
  split at solved
  · contradiction
  next notNan =>
    cases solved
    simpa using notNan

theorem isLead_cases_joined (sign : IsLead lead) (nonempty : lead ≠ []) :
    lead = ['+'] ∨ lead = ['-'] := by
  rcases sign with rfl | rfl | rfl
  · contradiction
  · exact .inl rfl
  · exact .inr rfl

theorem Link.Joined.stops (h : l.Joined) (t : Text) : Stops (l.symbol ++ (l.body ++ t)) := by
  cases glue : l.glue with
  | some operator =>
    rw [Link.symbol_of_some glue]
    exact stops_symbol operator _
  | none =>
    rw [Link.symbol_of_none glue, Link.body]
    rcases isLead_cases_joined h.lead (h.joint glue) with plus | minus
    · rw [plus]
      exact stops_symbol .add _
    · rw [minus]
      exact stops_symbol .subtract _

theorem stops_linksText (h : ∀ l ∈ ls, Link.Joined l) : Stops (linksText ls) := by
  cases ls with
  | nil => exact stops_nil
  | cons l ls => exact (h l (.head _)).stops _

theorem follow?_symbol {operator : Operator} {right rest : Text}
    (found : rightOperand? t = some (right, rest)) :
    follow? rank (operator.symbol :: t) =
      if operator.rank = rank then some (operator, right, rest) else none := by
  simp only [follow?, Operator.ofChar?_symbol, found, Option.map_some]

/-- The operation that a link begins with the operand before it. -/
theorem follow?_glue {operator : Operator} (h : l.Valid) (glue : l.glue = some operator)
    (joined : ∀ l ∈ ls, Link.Joined l) :
    follow? rank (linksText (l :: ls)) =
      if operator.rank = rank then some (operator, l.body, linksText ls) else none := by
  rw [linksText_cons, Link.symbol_of_some glue, Link.body, List.append_assoc]
  exact follow?_symbol (h.operand.rightOperand? (stops_linksText joined) h.lead)

theorem follow?_lead (h : l.Joined) (glue : l.glue = none)
    (joined : ∀ l ∈ ls, Link.Joined l) :
    follow? rank (linksText (l :: ls)) =
      if rank = .sum then some (leadOperator l.lead, l.operand, linksText ls) else none := by
  have right := h.operand.rightOperand? (stops_linksText joined) isLead_nil
  rw [linksText_cons, Link.symbol_of_none glue, Link.body, List.append_assoc]
  rcases isLead_cases_joined h.lead (h.joint glue) with plus | minus
  · rw [plus]
    have added : follow? rank (Operator.add.symbol :: (l.operand ++ linksText ls)) = _ :=
      follow?_symbol right
    exact added.trans (if_congr eq_comm rfl rfl)
  · rw [minus]
    have subtracted : follow? rank (Operator.subtract.symbol :: (l.operand ++ linksText ls)) = _ :=
      follow?_symbol right
    exact subtracted.trans (if_congr eq_comm rfl rfl)

theorem follow?_of_not_joins (h : l.Joined) (products : rank ≠ .sum) (apart : l.joins rank = false)
    (joined : ∀ l ∈ ls, Link.Joined l) : follow? rank (linksText (l :: ls)) = none := by
  cases glue : l.glue with
  | none => rw [follow?_lead h glue joined, if_neg products]
  | some operator =>
    have other : operator.rank ≠ rank := by
      simpa only [Link.joins, glue, decide_eq_false_iff_not] using apart
    rw [follow?_glue h.toValid glue joined, if_neg other]

/-- The search passes over what stands in front of an operand, except where sums are solved. -/
theorem findOperation?_front (h : l.Valid) (products : rank ≠ .sum) (apart : l.joins rank = false)
    (t : Text) :
    findOperation? rank (l.symbol ++ (l.lead ++ t)) =
      behind (l.symbol ++ l.lead) (findOperation? rank t) := by
  cases glue : l.glue with
  | none =>
    rw [Link.symbol_of_none glue]
    exact findOperation?_lead h.lead products t
  | some operator =>
    have other : operator.rank ≠ rank := by
      simpa only [Link.joins, glue, decide_eq_false_iff_not] using apart
    rw [Link.symbol_of_some glue, List.cons_append, List.nil_append, findOperation?_symbol other,
      findOperation?_lead h.lead products, behind_behind]

theorem findOperation?_miss (h : l.Valid) (products : rank ≠ .sum) (apart : l.joins rank = false)
    (stop : Stops t) (nothing : follow? rank t = none) :
    findOperation? rank (l.symbol ++ (l.body ++ t)) =
      behind (l.symbol ++ l.body) (findOperation? rank t) := by
  unfold Link.body
  rw [List.append_assoc, findOperation?_front h products apart,
    h.operand.findOperation? stop nothing, behind_behind, List.append_assoc]

theorem findOperation?_hit {operator : Operator} (h : l.Valid) (products : rank ≠ .sum)
    (apart : l.joins rank = false) (valid : next.Valid) (glue : next.glue = some operator)
    (same : operator.rank = rank) (joined : ∀ l ∈ ls, Link.Joined l) :
    findOperation? rank (linksText (l :: next :: ls)) =
      some (l.symbol ++ l.lead, ⟨l.operand, operator, next.body⟩, linksText ls) := by
  have following : follow? rank (linksText (next :: ls)) = _ := follow?_glue valid glue joined
  rw [if_pos same] at following
  have stop : Stops (linksText (next :: ls)) := by
    rw [linksText_cons, Link.symbol_of_some glue]
    exact stops_symbol operator _
  have found := operationAt?_of_leftOperand? (h.operand.leftOperand? stop rank)
  rw [following] at found
  have nonempty : l.operand ++ linksText (next :: ls) ≠ [] := by
    simp [h.operand.ne_nil]
  rw [linksText, Link.body, List.append_assoc, findOperation?_front h products apart,
    findOperation?_of_found nonempty found]
  simp only [behind, Option.map_some, List.append_nil]

@[simp] theorem findOperation?_nil (rank : Rank) : findOperation? rank [] = none := by
  rw [findOperation?]

/-- There is no operation in an operand. -/
theorem IsOperand.findOperation?_alone (h : IsOperand o) (rank : Rank) :
    Reckoner.findOperation? rank o = none := by
  have missed : Reckoner.findOperation? rank (o ++ []) = _ := h.findOperation? stops_nil rfl
  rwa [List.append_nil, findOperation?_nil] at missed

theorem findOperation?_last (h : l.Valid) (products : rank ≠ .sum)
    (apart : l.joins rank = false) : findOperation? rank (linksText [l]) = none := by
  rw [linksText, linksText, findOperation?_miss h products apart stops_nil rfl,
    findOperation?_nil]
  rfl

theorem solveRank_of_none (missed : findOperation? rank t = none) :
    (solveRank context rank t).outcome = .ok t := by
  rw [solveRank]
  split
  · rfl
  next found =>
    rw [missed] at found
    contradiction

theorem solveRank_of_some {operation : Operation} {after : Text}
    (found : findOperation? rank t = some (before, operation, after)) :
    (solveRank context rank t).outcome = (operation.solve context).bind fun x =>
      (solveRank context rank (reduceSigns (before ++ plain x ++ after))).outcome := by
  rw [solveRank]
  split
  next missed =>
    rw [missed] at found
    contradiction
  next before' operation' after' found' =>
    rw [found] at found'
    cases found'
    cases operation.solve context <;> rfl

theorem solveOperations_outcome (t : Text) :
    (solveOperations context t).outcome =
      (solveRank context .power t).outcome.bind fun t =>
        (solveRank context .product t).outcome.bind fun t =>
          (solveRank context .sum t).outcome := by
  unfold solveOperations Rank.all
  simp only [List.foldlM_cons, List.foldlM_nil, Traced.outcome_bind, Traced.outcome_pure]
  cases (solveRank context .power t).outcome with
  | error e => rfl
  | ok u =>
    simp only [Except.bind]
    cases (solveRank context .product u).outcome with
    | error e => rfl
    | ok v =>
      simp only
      cases (solveRank context .sum v).outcome <;> rfl

theorem solveSegment_outcome (t : Text) :
    (solveSegment context t).outcome = (solveCalls context [] t).outcome.bind fun t =>
      ((solveOperations context t).outcome.mapError Failure.fault).map markValue := by
  unfold solveSegment
  simp only [Traced.outcome_bind, Traced.outcome_emit, Traced.outcome_mapError,
    Traced.outcome_pure]
  cases (solveCalls context [] t).outcome with
  | error e => rfl
  | ok u =>
    simp only [Except.bind]
    cases (solveOperations context u).outcome <;> rfl

theorem reduceSigns_append_of_no_signs (none : ∀ c ∈ t, isSign c = false) (u : Text) :
    reduceSigns (t ++ u) = t ++ reduceSigns u := by
  induction t with
  | nil => rfl
  | cons c r ih =>
    rw [List.cons_append, reduceSigns_cons, ih fun d hd => none d (.tail _ hd),
      attachSign_of_not_isSign (none c (.head _)), List.cons_append]

theorem IsRow.reduceSigns_append {r : Text} (h : IsRow r) (t u : Text) :
    reduceSigns (t ++ (r ++ u)) = reduceSigns t ++ (r ++ reduceSigns u) := by
  rw [reduceSigns_append_of_unsigned (h.unsigned u),
    reduceSigns_append_of_no_signs fun c hc => isSign_of_isOperandChar (h.2 c hc)]

theorem IsOperand.reduceSigns_append (h : IsOperand o) (t u : Text) :
    reduceSigns (t ++ (o ++ u)) = reduceSigns t ++ (o ++ reduceSigns u) := by
  cases h with
  | row h => exact h.reduceSigns_append t u
  | @marked lead r sign h =>
    have opening : isSign openMark = false := by decide
    have closing : isSign closeMark = false := by decide
    simp only [List.cons_append, List.append_assoc, List.nil_append]
    rw [reduceSigns_append_cons opening, h.reduceSigns_append, sign.reduced, reduceSigns_cons,
      attachSign_of_not_isSign closing]

/-- Reducing signs goes on unchanged behind the text. -/
def Closed (before : Text) : Prop := ∀ t, reduceSigns (before ++ t) = before ++ reduceSigns t

theorem closed_nil : Closed [] := fun _ => rfl

theorem closed_symbol (h : l.Valid) : Closed l.symbol := by
  intro t
  cases glue : l.glue with
  | none =>
    rw [Link.symbol_of_none glue]
    rfl
  | some operator =>
    rw [Link.symbol_of_some glue]
    exact attachSign_of_not_isSign (Operator.not_isSign_symbol (h.glue operator glue)) _

theorem Closed.snoc (closed : Closed before) (h : l.Valid) :
    Closed (before ++ linksText [l]) := by
  intro t
  have body : reduceSigns (l.lead ++ (l.operand ++ t)) = l.lead ++ (l.operand ++ reduceSigns t) := by
    rw [h.operand.reduceSigns_append, h.lead.reduced]
  simp only [linksText, Link.body, List.append_nil, List.append_assoc]
  rw [closed, closed_symbol h, body]

theorem reduceSigns_linksText (valid : ∀ l ∈ ls, Link.Valid l) :
    reduceSigns (linksText ls) = linksText ls := by
  induction ls with
  | nil => rfl
  | cons l ls ih =>
    have front := closed_nil.snoc (valid l (.head _)) (linksText ls)
    have rest := ih fun m hm => valid m (.tail _ hm)
    rw [List.nil_append, rest, ← linksText_append] at front
    exact front

theorem Link.Valid.splice (h : l.Valid) (x : Float) : (l.splice x).Valid :=
  ⟨h.lead.reduceSigns_append (isLead_valueSign x), .row (isTame_sizeText _), h.glue⟩

theorem reduceSigns_ne_nil (nonempty : t ≠ []) : reduceSigns t ≠ [] := by
  cases t with
  | nil => contradiction
  | cons c r =>
    rw [reduceSigns_cons]
    cases reduceSigns r with
    | nil => exact List.cons_ne_nil _ _
    | cons d s =>
      simp only [attachSign]
      split <;> exact List.cons_ne_nil _ _

theorem Link.Joined.splice (h : l.Joined) (x : Float) : (l.splice x).Joined := by
  refine ⟨h.toValid.splice x, ?_⟩
  intro glue
  exact reduceSigns_ne_nil (List.append_ne_nil_of_left_ne_nil (h.joint glue) _)

/-- A value in the place of an operand gives its sign to the lead. -/
theorem reduceSigns_splice (closed : Closed before) (h : l.Valid)
    (joined : ∀ l ∈ ls, Link.Joined l) (number : x.isNaN = false) :
    reduceSigns (before ++ (l.symbol ++ l.lead) ++ plain x ++ linksText ls) =
      before ++ linksText (l.splice x :: ls) := by
  have symbol : (l.splice x).symbol = l.symbol := rfl
  have rest := reduceSigns_linksText fun m hm => (joined m hm).toValid
  simp only [List.append_assoc]
  rw [closed, closed_symbol h, plain_eq number, List.append_assoc, ← List.append_assoc l.lead,
    (isTame_sizeText _).row.reduceSigns_append, rest, linksText_cons, symbol]
  unfold Link.body Link.splice
  rw [List.append_assoc]

/-- The search for an operation of the rank passes over the text. -/
def Skips (rank : Rank) (before : Text) : Prop :=
  ∀ l ls, Link.Valid l → (before ≠ [] → l.Joined) → l.joins rank = false →
    (∀ m ∈ ls, Link.Joined m) →
    findOperation? rank (before ++ linksText (l :: ls)) =
      behind before (findOperation? rank (linksText (l :: ls)))

theorem skips_nil (rank : Rank) : Skips rank [] := fun _ _ _ _ _ _ => (behind_nil _).symm

theorem Skips.snoc (skips : Skips rank before) (products : rank ≠ .sum) (h : l.Valid)
    (inner : before ≠ [] → l.Joined) (apart : l.joins rank = false) :
    Skips rank (before ++ linksText [l]) := by
  intro next ls valid behind' apart' joined
  have nonempty : before ++ linksText [l] ≠ [] := by
    simp [linksText, Link.body, h.operand.ne_nil]
  have nextJoined := behind' nonempty
  have all : ∀ m ∈ next :: ls, Link.Joined m := List.forall_mem_cons.2 ⟨nextJoined, joined⟩
  have first := skips l (next :: ls) h inner apart all
  have second := findOperation?_miss h products apart (stops_linksText all)
    (follow?_of_not_joins nextJoined products apart' joined)
  have shape : linksText [l] = l.symbol ++ l.body := by
    rw [linksText_cons, linksText, List.append_nil]
  have whole : before ++ linksText [l] ++ linksText (next :: ls) =
      before ++ linksText (l :: next :: ls) := by
    rw [List.append_assoc, ← linksText_append, List.singleton_append]
  rw [whole, first, linksText_cons l, second, behind_behind, shape]

/-- A rank other than that of sums folds the chain from left to right. -/
theorem solveRank_links (products : rank ≠ .sum) (skips : Skips rank before)
    (closed : Closed before) (h : l.Valid) (inner : before ≠ [] → l.Joined)
    (apart : l.joins rank = false) (joined : ∀ m ∈ ls, Link.Joined m) :
    (solveRank context rank (before ++ linksText (l :: ls))).outcome =
      (passLinks context rank l ls).map fun ls => before ++ linksText ls := by
  induction ls generalizing before l with
  | nil =>
    have missed := skips l [] h inner apart joined
    rw [findOperation?_last h products apart] at missed
    exact solveRank_of_none missed
  | cons next ls ih =>
    have nextJoined := joined next (.head _)
    have rest : ∀ m ∈ ls, Link.Joined m := fun m hm => joined m (.tail _ hm)
    -- Where the next link is not joined in this rank, the link is left as it is.
    have passed (apart' : next.joins rank = false) :
        (solveRank context rank (before ++ linksText (l :: next :: ls))).outcome =
          (passLinks context rank next ls).map fun ls => before ++ linksText (l :: ls) := by
      have after := ih (skips.snoc products h inner apart) (closed.snoc h) nextJoined.toValid
        (fun _ => nextJoined) apart' rest
      have whole (more : List Link) :
          before ++ linksText [l] ++ linksText more = before ++ linksText (l :: more) := by
        rw [List.append_assoc, ← linksText_append, List.singleton_append]
      simpa only [whole] using after
    have move (r : Except Fault (List Link)) :
        r.map (fun ls => before ++ linksText (l :: ls)) =
          (do return l :: (← r) : Except Fault (List Link)).map
            fun ls => before ++ linksText ls := by
      cases r <;> rfl
    cases glue : next.glue with
    | none =>
      rw [passed (by simp only [Link.joins, glue]), move]
      simp only [passLinks, glue]
    | some operator =>
      by_cases same : operator.rank = rank
      · have found := skips l (next :: ls) h inner apart joined
        rw [findOperation?_hit h products apart nextJoined.toValid glue same rest] at found
        simp only [passLinks, glue, same, if_true]
        rw [solveRank_of_some found]
        cases solved : Operation.solve context ⟨l.operand, operator, next.body⟩ with
        | error e => rfl
        | ok x =>
          have number := Operation.solve_number solved
          have spliced := reduceSigns_splice closed h rest number
          change (solveRank context rank (reduceSigns
            (before ++ (l.symbol ++ l.lead) ++ plain x ++ linksText ls))).outcome = _
          rw [spliced]
          exact ih skips closed (h.splice x) (fun nonempty => (inner nonempty).splice x) apart rest
      · rw [passed (by simp only [Link.joins, glue, same, decide_false]), move]
        simp only [passLinks, glue, same, if_false]

theorem findOperation?_sum (h : l.Valid) (start : l.glue = none) (joined : next.Joined)
    (glue : next.glue = none) (rest : ∀ m ∈ ls, Link.Joined m) :
    findOperation? .sum (linksText (l :: next :: ls)) =
      some ([], ⟨l.body, leadOperator next.lead, next.operand⟩, linksText ls) := by
  have all : ∀ m ∈ next :: ls, Link.Joined m := List.forall_mem_cons.2 ⟨joined, rest⟩
  have found := operationAt?_of_leftOperand?
    (h.operand.leftOperand?_lead (stops_linksText all) h.lead)
  have nonempty : l.lead ++ (l.operand ++ linksText (next :: ls)) ≠ [] := by
    simp [h.operand.ne_nil]
  rw [follow?_lead joined glue rest, if_pos rfl] at found
  rw [linksText_cons, Link.symbol_of_none start, List.nil_append, Link.body, List.append_assoc,
    findOperation?_of_found nonempty found]

theorem findOperation?_sum_last (h : l.Valid) (start : l.glue = none) :
    findOperation? .sum (linksText [l]) = none := by
  have nothing : follow? .sum [] = none := rfl
  have operand := h.operand.findOperation?_alone .sum
  have missed := operationAt?_of_leftOperand? (h.operand.leftOperand?_lead stops_nil h.lead)
  rw [nothing] at missed
  rw [linksText_cons, Link.symbol_of_none start, List.nil_append, Link.body, List.append_assoc]
  rw [List.append_nil] at missed
  change findOperation? .sum (l.lead ++ (l.operand ++ [])) = none
  rw [List.append_nil]
  rcases h.lead with none | plus | minus
  · rw [none]
    exact operand
  · rw [plus] at missed ⊢
    rw [List.singleton_append] at missed ⊢
    rw [findOperation?_cons (by decide) missed, operand]
    rfl
  · rw [minus] at missed ⊢
    rw [List.singleton_append] at missed ⊢
    rw [findOperation?_cons (by decide) missed, operand]
    rfl

/-- The rank of sums folds a chain without other operators into one operand. -/
theorem solveRank_sums (h : l.Valid) (start : l.glue = none)
    (joined : ∀ m ∈ ls, Link.Joined m ∧ m.glue = none) :
    (solveRank context .sum (linksText (l :: ls))).outcome =
      (sumLinks context l ls).map Link.body := by
  induction ls generalizing l with
  | nil =>
    rw [solveRank_of_none (findOperation?_sum_last h start), linksText_cons,
      Link.symbol_of_none start]
    exact congrArg Except.ok (List.append_nil _)
  | cons next ls ih =>
    obtain ⟨nextJoined, glue⟩ := joined next (.head _)
    have rest : ∀ m ∈ ls, Link.Joined m ∧ m.glue = none := fun m hm => joined m (.tail _ hm)
    have restJoined : ∀ m ∈ ls, Link.Joined m := fun m hm => (rest m hm).1
    rw [solveRank_of_some (findOperation?_sum h start nextJoined glue restJoined), sumLinks]
    cases solved : Operation.solve context ⟨l.body, leadOperator next.lead, next.operand⟩ with
    | error e => rfl
    | ok x =>
      have empty : Link.Valid ⟨none, [], l.operand⟩ := ⟨.inl rfl, h.tame, nofun⟩
      have spliced := reduceSigns_splice closed_nil empty restJoined
        (Operation.solve_number solved)
      have valid : Link.Valid ⟨none, valueSign x, sizeText (magnitude x)⟩ :=
        ⟨isLead_valueSign x, .row (isTame_sizeText _), nofun⟩
      have sign : reduceSigns (valueSign x) = valueSign x := (isLead_valueSign x).reduced
      unfold Link.splice at spliced
      simp only [List.nil_append, sign] at spliced
      have after := ih valid rfl rest
      rw [← spliced] at after
      exact after

end Reckoner
