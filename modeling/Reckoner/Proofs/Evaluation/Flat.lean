import Reckoner.Proofs.Evaluation.Chains
import Reckoner.Proofs.Expression.Written

set_option autoImplicit false

namespace Reckoner

/-- A chain from its start on, with operands of a kind. -/
structure IsChainOf (kind : Text → Prop) (ls : List Link) : Prop where
  nonempty : ls ≠ []
  start : ∀ l ∈ ls.head?, l.glue = none
  joint : ∀ l ∈ ls.tail, l.glue = none → l.lead ≠ []
  lead : ∀ l ∈ ls, IsLead l.lead
  glue : ∀ l ∈ ls, ∀ operator, l.glue = some operator → operator.rank ≠ .sum
  operand : ∀ l ∈ ls, kind l.operand

/-- What stands in front of the next operand of a chain, or of the first one. -/
structure Opens (kind : Text → Prop) (ls : List Link) (glue : Option Operator) (lead : Text) :
    Prop where
  chain : ls = [] ∨ IsChainOf kind ls
  start : ls = [] → glue = none
  joint : ls ≠ [] → glue = none → lead ≠ []
  lead : IsLead lead
  glue : ∀ operator, glue = some operator → operator.rank ≠ .sum

variable {context : Context} {kind kind' atom call : Text → Prop} {failure : Failure → Prop}
  {ls : List Link} {glue : Option Operator} {lead o t u x : Text} {stage : Stage}

theorem IsChainOf.mono (h : IsChainOf kind ls) (weaker : ∀ l ∈ ls, kind l.operand → kind' l.operand) :
    IsChainOf kind' ls :=
  { h with operand := fun l member => weaker l member (h.operand l member) }

theorem IsChainOf.exists_cons (h : IsChainOf kind ls) : ∃ l rest, ls = l :: rest ∧ l.glue = none := by
  cases ls with
  | nil => exact absurd rfl h.nonempty
  | cons l rest => exact ⟨l, rest, rfl, h.start l rfl⟩

/-- Chains of tame operands are solved by folds over their links. -/
theorem IsChainOf.part (h : IsChainOf IsTameOperand ls) : ∃ lead, Part none lead ls := by
  obtain ⟨l, rest, rfl, start⟩ := h.exists_cons
  have valid : ∀ m ∈ l :: rest, Link.Valid m := fun m member =>
    ⟨h.lead m member, h.operand m member, h.glue m member⟩
  exact ⟨l.lead, ⟨l, rest, rfl, start, rfl, fun m member =>
    ⟨valid m (.tail _ member), h.joint m member⟩⟩, valid⟩

theorem opens_nil (sign : IsLead lead) : Opens kind [] none lead :=
  ⟨.inl rfl, fun _ => rfl, fun no => absurd rfl no, sign, nofun⟩

theorem Opens.snoc (h : Opens kind ls glue lead) (operand : kind o) :
    IsChainOf kind (ls ++ [⟨glue, lead, o⟩]) := by
  rcases h.chain with rfl | chain
  · refine ⟨by simp, ?_, nofun, ?_, ?_, ?_⟩
    · rintro l ⟨⟩
      exact h.start rfl
    · exact List.forall_mem_singleton.2 h.lead
    · exact List.forall_mem_singleton.2 h.glue
    · exact List.forall_mem_singleton.2 operand
  · obtain ⟨l, rest, rfl, start⟩ := chain.exists_cons
    refine ⟨by simp, ?_, ?_, ?_, ?_, ?_⟩
    · rintro m ⟨⟩
      exact start
    · exact List.forall_mem_append.2 ⟨chain.joint, List.forall_mem_singleton.2 (h.joint (by simp))⟩
    · exact List.forall_mem_append.2 ⟨chain.lead, List.forall_mem_singleton.2 h.lead⟩
    · exact List.forall_mem_append.2 ⟨chain.glue, List.forall_mem_singleton.2 h.glue⟩
    · exact List.forall_mem_append.2 ⟨chain.operand, List.forall_mem_singleton.2 operand⟩

theorem IsChainOf.opens (h : IsChainOf kind ls) (joint : IsJoint t) :
    ∃ glue lead, Opens kind ls glue lead ∧ t = (Link.mk glue lead []).symbol ++ lead := by
  cases joint with
  | @sum operator rank =>
    exact ⟨none, [operator.symbol], ⟨.inr h, fun none => absurd none h.nonempty, by simp,
      isLead_symbol rank, nofun⟩, rfl⟩
  | @signed operator lead rank sign =>
    refine ⟨some operator, lead, ⟨.inr h, fun none => absurd none h.nonempty, by simp, sign, ?_⟩,
      rfl⟩
    rintro _ ⟨⟩
    exact rank

theorem linksText_snoc (ls : List Link) (glue : Option Operator) (lead o : Text) :
    linksText (ls ++ [⟨glue, lead, o⟩]) =
      linksText ls ++ ((Link.mk glue lead []).symbol ++ lead ++ o) := by
  rw [linksText_append]
  simp [linksText, Link.body, Link.symbol]

theorem linksText_operand (ls : List Link) (glue : Option Operator) (lead o : Text) :
    linksText (ls ++ [⟨glue, lead, []⟩]) ++ o = linksText (ls ++ [⟨glue, lead, o⟩]) := by
  rw [linksText_snoc, linksText_snoc]
  simp

/-- A text without groups as an expression is written, up to this stage. -/
inductive FlatAs (kind : Text → Prop) : Stage → Text → Prop
  | front {ls : List Link} {glue : Option Operator} {lead : Text} (h : Opens kind ls glue lead) :
    FlatAs kind .front (linksText (ls ++ [⟨glue, lead, []⟩]))
  | whole {ls : List Link} (h : IsChainOf kind ls) : FlatAs kind .whole (linksText ls)

theorem FlatAs.operand (h : FlatAs kind .front t) (operand : kind o) :
    FlatAs kind .whole (t ++ o) := by
  cases h with
  | @front ls glue lead h =>
    rw [linksText_operand]
    exact .whole (h.snoc operand)

theorem FlatAs.joint {j : Text} (h : FlatAs kind .whole t) (joint : IsJoint j) :
    FlatAs kind .front (t ++ j) := by
  cases h with
  | @whole ls h =>
    obtain ⟨glue, lead, opens, rfl⟩ := h.opens joint
    have shape : linksText ls ++ ((Link.mk glue lead []).symbol ++ lead) =
        linksText (ls ++ [⟨glue, lead, []⟩]) := by
      rw [linksText_snoc, List.append_nil]
    rw [shape]
    exact .front opens

/-- The values of segments are operands of the same kind again, also behind a name, and the reasons
why a segment has none are of a kind. -/
structure SegmentsKeep (context : Context) (kind call : Text → Prop) (failure : Failure → Prop) :
    Prop where
  error : ∀ ls e, IsChainOf kind ls → (solveSegment context (linksText ls)).outcome = .error e →
    failure e
  value : ∀ ls v x, IsChainOf kind ls → (solveSegment context (linksText ls)).outcome = .ok v →
    call x → kind (x ++ v)

/-- Solving the groups of a text either fails for a reason of the kind, or leaves a chain. -/
def Reads (context : Context) (kind : Text → Prop) (failure : Failure → Prop) (stage : Stage)
    (t : Text) : Prop :=
  ∃ flat, Flattens context t flat ∧ (∀ e, flat = .error e → failure e) ∧
    ∀ u, flat = .ok u → FlatAs kind stage u

/-- The same of several contexts, in all of which the text comes to the same. -/
def ReadsAlike (contexts : Context → Prop) (kind : Text → Prop) (failure : Failure → Prop)
    (stage : Stage) (t : Text) : Prop :=
  ∃ flat, (∀ context, contexts context → Flattens context t flat) ∧
    (∀ e, flat = .error e → failure e) ∧ ∀ u, flat = .ok u → FlatAs kind stage u

/-- Segments with operands of the kind come to the same in all these contexts. -/
structure SegmentsAgree (contexts : Context → Prop) (kind call : Text → Prop)
    (failure : Failure → Prop) : Prop where
  outcome : ∀ ls, IsChainOf kind ls → ∃ result,
    (∀ context, contexts context → (solveSegment context (linksText ls)).outcome = result) ∧
      (∀ e, result = .error e → failure e) ∧ ∀ v x, result = .ok v → call x → kind (x ++ v)

theorem SegmentsKeep.agree (h : SegmentsKeep context kind call failure) :
    SegmentsAgree (fun context' => context' = context) kind call failure := by
  refine ⟨fun ls chain => ⟨_, ?_, fun e => h.error ls e chain, fun v x => h.value ls v x chain⟩⟩
  rintro _ rfl
  rfl

variable {contexts : Context → Prop}

theorem ReadsAlike.append {t' : Text} {flat' : Except Failure Text} {stage' : Stage}
    (h : ReadsAlike contexts kind failure stage t)
    (h' : ∀ context, contexts context → Flattens context t' flat')
    (error : ∀ e, flat' = .error e → failure e)
    (value : ∀ u u', FlatAs kind stage u → flat' = .ok u' → FlatAs kind stage' (u ++ u')) :
    ReadsAlike contexts kind failure stage' (t ++ t') := by
  obtain ⟨flat, solved, fails, reads⟩ := h
  refine ⟨_, fun context among => (solved context among).append (h' context among),
    fun e failed => ?_, fun w succeeds => ?_⟩
  · cases flat with
    | error e' =>
      cases failed
      exact fails e rfl
    | ok u =>
      cases flat' with
      | error e' =>
        cases failed
        exact error e rfl
      | ok u' => contradiction
  · obtain ⟨u, first, rest⟩ := bind_eq_ok succeeds
    obtain ⟨u', second, rfl⟩ := map_eq_ok rest
    exact value u u' (reads u first) second

theorem flat_of_isLead (sign : IsLead lead) : '(' ∉ lead ∧ ')' ∉ lead := by
  rcases sign with rfl | rfl | rfl <;> decide

theorem flat_of_isJoint (joint : IsJoint t) : '(' ∉ t ∧ ')' ∉ t := by
  have symbol (operator : Operator) : '(' ≠ operator.symbol ∧ ')' ≠ operator.symbol := by
    cases operator <;> decide
  cases joint with
  | @sum operator => simpa using symbol operator
  | @signed operator lead _ sign =>
    have rest := flat_of_isLead sign
    simp [symbol operator, rest]

theorem Literal.flat (l : Literal) : '(' ∉ l.text ∧ ')' ∉ l.text :=
  ⟨fun member => absurd (l.isRow.2 _ member) (by decide),
    fun member => absurd (l.isRow.2 _ member) (by decide)⟩

theorem flat_of_letters (letters : Letters x) : '(' ∉ x ∧ ')' ∉ x :=
  ⟨fun member => absurd (letters _ member) (by decide),
    fun member => absurd (letters _ member) (by decide)⟩

/-- An expression in the grammar is a chain of operands of the kind, once its groups are solved: the
same one in all contexts in which the segments come to the same. -/
theorem Written.readsAlike (h : Written atom call stage t)
    (agree : SegmentsAgree contexts kind call failure)
    (atoms : ∀ f, atom f → kind f ∧ '(' ∉ f ∧ ')' ∉ f)
    (calls : ∀ x, call x → '(' ∉ x ∧ ')' ∉ x) : ReadsAlike contexts kind failure stage t := by
  induction h with
  | @lead t sign =>
    obtain ⟨open', close⟩ := flat_of_isLead sign
    refine ⟨_, fun _ _ => flattens_of_flat open' close, nofun, ?_⟩
    rintro _ ⟨⟩
    have shape : linksText ([] ++ [⟨none, t, []⟩]) = t := by
      rw [linksText_snoc]
      exact List.append_nil t
    rw [← shape]
    exact .front (opens_nil sign)
  | @atom p f _ h ih =>
    obtain ⟨operand, open', close⟩ := atoms f h
    refine ih.append (fun _ _ => flattens_of_flat open' close) nofun ?_
    rintro u _ front ⟨⟩
    exact front.operand operand
  | @group p x t _ h _ ih ih' =>
    obtain ⟨open', close⟩ := calls x h
    obtain ⟨flat, solved, fails, reads⟩ := ih'
    -- What the group comes to in all of the contexts.
    have group : ∃ result, (∀ context, contexts context →
          (flat.bind fun u => (solveSegment context u).outcome) = result) ∧
        (∀ e, result = .error e → failure e) ∧ ∀ v, result = .ok v → kind (x ++ v) := by
      cases flat with
      | error e => exact ⟨.error e, fun _ _ => rfl, fails, nofun⟩
      | ok u =>
        cases reads u rfl with
        | @whole ls chain =>
          obtain ⟨result, same, error, value⟩ := agree.outcome ls chain
          exact ⟨result, same, error, fun v succeeds => value v x succeeds h⟩
    obtain ⟨result, same, error, value⟩ := group
    have whole (context : Context) (among : contexts context) :
        Flattens context (x ++ '(' :: (t ++ [')'])) (result.map fun v => x ++ v) := by
      rw [← same context among]
      exact (flattens_of_flat open' close).append (solved context among).group
    refine ih.append whole (fun e failed => ?_) fun u u' front succeeds => ?_
    · cases result with
      | error e' =>
        cases failed
        exact error e rfl
      | ok v => contradiction
    · obtain ⟨v, marked, rfl⟩ := map_eq_ok succeeds
      exact front.operand (value v marked)
  | @joint s j _ h ih =>
    obtain ⟨open', close⟩ := flat_of_isJoint h
    refine ih.append (fun _ _ => flattens_of_flat open' close) nofun ?_
    rintro u _ front ⟨⟩
    exact front.joint h

theorem Written.reads (h : Written atom call stage t) (keep : SegmentsKeep context kind call failure)
    (atoms : ∀ f, atom f → kind f ∧ '(' ∉ f ∧ ')' ∉ f)
    (calls : ∀ x, call x → '(' ∉ x ∧ ')' ∉ x) : Reads context kind failure stage t := by
  obtain ⟨flat, solved, rest⟩ := h.readsAlike keep.agree atoms calls
  exact ⟨flat, solved context rfl, rest⟩

/-- Where the segments come to the same in two contexts, so does the expression. -/
theorem Written.solveGroups_alike {context' : Context} (h : Written atom call .whole t)
    (agree : SegmentsAgree contexts kind call failure)
    (atoms : ∀ f, atom f → kind f ∧ '(' ∉ f ∧ ')' ∉ f)
    (calls : ∀ x, call x → '(' ∉ x ∧ ')' ∉ x) (among : contexts context)
    (among' : contexts context') : (solveGroups context [] [] (t ++ [')'])).outcome =
      (solveGroups context' [] [] (t ++ [')'])).outcome := by
  obtain ⟨flat, solved, _, reads⟩ := h.readsAlike agree atoms calls
  rw [(solved context among).solveGroups, (solved context' among').solveGroups]
  cases flat with
  | error e => simp only [Except.bind]
  | ok u =>
    cases reads u rfl with
    | @whole ls chain =>
      obtain ⟨result, same, _⟩ := agree.outcome ls chain
      simp only [Except.bind]
      rw [same context among, same context' among']

/-- The expression itself is a chain, and its value is that of the chain's. -/
theorem Written.solveExpression (h : Written atom call .whole t)
    (keep : SegmentsKeep context kind call failure)
    (atoms : ∀ f, atom f → kind f ∧ '(' ∉ f ∧ ')' ∉ f)
    (calls : ∀ x, call x → '(' ∉ x ∧ ')' ∉ x) :
    (∃ e, (solveGroups context [] [] (t ++ [')'])).outcome = .error e ∧ failure e) ∨
      ∃ ls, IsChainOf kind ls ∧ (solveGroups context [] [] (t ++ [')'])).outcome =
        (solveSegment context (linksText ls)).outcome := by
  obtain ⟨flat, solved, fails, reads⟩ := h.reads keep atoms calls
  rw [solved.solveGroups]
  cases flat with
  | error e => exact .inl ⟨e, rfl, fails e rfl⟩
  | ok u =>
    cases reads u rfl with
    | @whole ls chain => exact .inr ⟨ls, chain, rfl⟩

end Reckoner
