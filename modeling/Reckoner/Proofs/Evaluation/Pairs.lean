import Reckoner.Proofs.Evaluation.Splices

set_option autoImplicit false

namespace Reckoner

open Double

/-- One pair of marks around a row that can have a sign, and no call in the row. -/
def IsPair (v : Text) : Prop := ∃ lead r, IsLead lead ∧ IsRow r ∧ CallFree [] r ∧
  v = openMark :: (lead ++ (r ++ [closeMark]))

/-- A segment with nothing to solve, and with no operators but signs. -/
structure IsSettled (t : Text) : Prop where
  sums : findOperation? .sum t = none
  others : ∀ operator : Operator, operator.rank ≠ .sum → operator.symbol ∉ t

open Site

variable {context : Context} {rules : Rules} {p q : Site} {t u w o x : Text} {rank : Rank}
  {signs : Option Nat} {n : Nat} {operator : Operator}

/-- Behind an operator there is what it is read with. -/
theorem Parts.exists_follow? (h : Parts (some n) t) (operator : Operator) :
    ∃ found, follow? operator.rank (operator.symbol :: t) = some found := by
  obtain ⟨s, o, r, rfl, _, signed, _⟩ := h.exists_signed rfl
  exact ⟨_, by rw [follow?_symbol signed.rightOperand?, if_pos rfl]⟩

theorem operationAt?_none (nothing : findOperation? rank t = none) : operationAt? rank t = none := by
  cases t with
  | nil => cases rank <;> rfl
  | cons c t =>
    cases here : operationAt? rank (c :: t) with
    | none => rfl
    | some found =>
      rw [findOperation?_of_found (List.cons_ne_nil c t) here] at nothing
      contradiction

/-- Where there is no operation, none begins with the operand, and none is behind it. -/
theorem IsHead.nothing (h : IsHead o t) (nothing : Reckoner.findOperation? rank (o ++ t) = none) :
    follow? rank t = none ∧ Reckoner.findOperation? rank t = none := by
  have follows : follow? rank t = none := by
    have here := operationAt?_none nothing
    rw [operationAt?_of_leftOperand? (h.leftOperand? rank)] at here
    exact Option.map_eq_none_iff.1 here
  rw [h.findOperation? follows] at nothing
  exact ⟨follows, Option.map_eq_none_iff.1 nothing⟩

theorem findOperation?_behind_sign {c : Char} (sign : isSign c = true)
    (nothing : findOperation? rank (c :: t) = none) : findOperation? rank t = none := by
  rw [findOperation?_cons (not_isOperandChar_of_isSign sign) (operationAt?_none nothing)] at nothing
  exact Option.map_eq_none_iff.1 nothing

/-- No operator stands in an operand but for a sign in its marks. -/
theorem IsHead.not_mem (h : IsHead o t) (product : operator.rank ≠ .sum) : operator.symbol ∉ o := by
  have bare := Operator.not_isOperandChar_symbol operator
  have unsigned := Operator.not_isSign_symbol product
  have unmarked : operator.symbol ≠ openMark ∧ operator.symbol ≠ closeMark := by
    cases operator <;> decide
  have outside {r : Text} (row : IsRow r) : operator.symbol ∉ r := fun member => by
    rw [row.2 _ member] at bare
    contradiction
  have ahead {lead : Text} (sign : IsLead lead) : operator.symbol ∉ lead := fun member => by
    rw [sign.signs _ member] at unsigned
    contradiction
  obtain ⟨rfl | ⟨lead, sign, rfl⟩, row, rfl | ⟨rfl, _⟩⟩ := h <;>
    simp [outside row, unmarked] <;> exact ahead sign

/-- Where there is no power or product, its operator is nowhere. -/
theorem Parts.not_mem (h : Parts signs t) (product : operator.rank ≠ .sum)
    (nothing : findOperation? operator.rank t = none)
    (behind : signs = none → follow? operator.rank t = none) : operator.symbol ∉ t := by
  induction h with
  | nil => exact List.not_mem_nil
  | @sign n c t sign _ _ ih =>
    have other : operator.symbol ≠ c := by
      rintro rfl
      cases operator <;> contradiction
    exact fun member => (List.mem_cons.1 member).elim other
      (ih (findOperation?_behind_sign sign nothing) nofun)
  | @operator o t rest ih =>
    have other : o.rank ≠ operator.rank := by
      intro same
      obtain ⟨found, follows⟩ := rest.exists_follow? o
      rw [same, behind rfl] at follows
      contradiction
    have apart : operator.symbol ≠ o.symbol := by
      intro same
      have back := Operator.ofChar?_symbol operator
      rw [same, Operator.ofChar?_symbol o] at back
      exact other (congrArg Operator.rank (Option.some.inj back))
    rw [findOperation?_symbol other] at nothing
    exact fun member => (List.mem_cons.1 member).elim apart
      (ih (Option.map_eq_none_iff.1 nothing) nofun)
  | operand head _ _ ih =>
    obtain ⟨follows, nothing⟩ := head.nothing nothing
    exact fun member => (List.mem_append.1 member).elim (head.not_mem product)
      (ih nothing fun _ => follows)

/-- A slot right behind an opening mark, or behind a sign there, is at such a place. -/
def Slot.IsAt (s : Slot) (p : Site) : Prop :=
  ∀ n, s = .opened n → ∃ called, n = 0 ∧ p = .opened called false ∨ p = .opened called true

theorem Slot.isAt_opened (called : Bool) : (Slot.opened 0).IsAt (.opened called false) := by
  rintro _ ⟨⟩
  exact ⟨called, .inl ⟨rfl, rfl⟩⟩

/-- Well-formed marks have one sign in them at most. -/
theorem Slot.Completes.narrowed {s : Slot} (h : Slot.Completes 2 2 s t) (site : Admits rules p t)
    (place : s.IsAt p) : Slot.Completes 2 1 s t := by
  induction t generalizing s p with
  | nil =>
    obtain ⟨closed, run⟩ := h
    cases run
    exact ⟨closed, .nil _⟩
  | cons c t ih =>
    obtain ⟨s', next, rest⟩ := Slot.completes_cons.1 h
    obtain ⟨m, step, behind⟩ := admits_cons.1 site
    have onward (next' : Slot.Next 2 1 s c s') (place' : s'.IsAt m) : Slot.Completes 2 1 s (c :: t) :=
      Slot.completes_cons.2 ⟨s', next', ih rest behind place'⟩
    cases next with
    | operand h => exact onward (.operand h) fun _ => Slot.noConfusion
    | sign h room => exact onward (.sign h room) fun _ => Slot.noConfusion
    | sum h => exact onward (.sum h) fun _ => Slot.noConfusion
    | binary h => exact onward (.binary h) fun _ => Slot.noConfusion
    | leave => exact onward .leave fun _ => Slot.noConfusion
    | enter few =>
      obtain ⟨called, rfl⟩ := step.of_openMark
      exact onward (.enter few) (isAt_opened called)
    | behind =>
      obtain ⟨called, rfl⟩ := step.of_openMark
      exact onward .behind (isAt_opened called)
    | inner sign =>
      obtain ⟨called, ⟨rfl, rfl⟩ | rfl⟩ := place _ rfl <;>
        rcases step.of_sign sign with ⟨_, _, ⟨⟩, _⟩ | ⟨_, ⟨⟩, rfl⟩
      exact onward (.inner sign Nat.one_pos) fun _ _ => ⟨called, .inr rfl⟩

/-- A segment with its calls solved is made of operands, operators and signs. -/
theorem parts_of_admits (slot : Slot.Completes 2 2 (.free 0) t)
    (site : Admits rules (outside .nothing []) t) : Parts (some 0) t :=
  (slot.narrowed site fun _ => Slot.noConfusion).parts (fun _ => Slot.noConfusion) Slot.noConfusion

theorem findOperation?_solveRank (value : (solveRank context rank t).outcome = .ok w) :
    findOperation? rank w = none := by
  fun_induction solveRank context rank t with
  | case1 t nothing =>
    cases value
    exact nothing
  | case2 t before operation after _ ih =>
    rw [Traced.outcome_bind] at value
    obtain ⟨x, _, value⟩ := bind_eq_ok value
    exact ih x value

/-- What the operations of a rank leave has no operator of the rank, unless that is a sign. -/
theorem not_mem_solveRank (slot : Slot.Completes 2 2 (.free 0) t)
    (site : Admits Rules.solved (outside .nothing []) t) (product : operator.rank ≠ .sum)
    (value : (solveRank context operator.rank t).outcome = .ok w) : operator.symbol ∉ w :=
  (parts_of_admits (slot.solveRank value) ((solveRank_keeps context _ site).2 w value)).not_mem
    product (findOperation?_solveRank value) nofun

/-- Operations of another rank bring no operator but signs. -/
theorem not_mem_of_solveRank (product : operator.rank ≠ .sum) (none : operator.symbol ∉ t)
    (value : (solveRank context rank t).outcome = .ok w) : operator.symbol ∉ w := by
  have others : ∀ c, isSign c = true ∨ isOperandChar c = true → c ≠ operator.symbol := by
    rintro _ kept rfl
    cases operator <;> contradiction
  have all : ∀ c ∈ t, c ≠ operator.symbol := by
    rintro c member rfl
    exact none member
  exact fun member => forall_mem_solveRank others all value _ member rfl

/-- Once the operations are solved, nothing is left to solve. -/
theorem isSettled_of_solveOperations (slot : Slot.Completes 2 2 (.free 0) t)
    (site : Admits Rules.solved (outside .nothing []) t)
    (value : (solveOperations context t).outcome = .ok w) : IsSettled w := by
  rw [solveOperations_outcome] at value
  obtain ⟨u, powers, value⟩ := bind_eq_ok value
  obtain ⟨v, products, sums⟩ := bind_eq_ok value
  refine ⟨findOperation?_solveRank sums, fun operator product => not_mem_of_solveRank product ?_ sums⟩
  cases rank : operator.rank with
  | sum => exact absurd rank product
  | power =>
    rw [← rank] at powers
    exact not_mem_of_solveRank product (not_mem_solveRank slot site product powers) products
  | product =>
    have site' := (solveRank_keeps context _ site).2 u powers
    rw [← rank] at products
    exact not_mem_solveRank (slot.solveRank powers) site' product products

def Site.InOperand (p : Site) : Prop :=
  (∃ called name, p = inside called name) ∨
    ∃ ahead name, p = outside ahead name ∧ (ahead = .nothing → name ≠ [])

theorem Site.InOperand.not_openMark (h : p.InOperand) : ¬ Step Rules.solved p openMark q := by
  intro step
  rcases h with ⟨_, _, rfl⟩ | ⟨_, _, rfl, some⟩
  · cases step with
    | goOn h | count h _ => exact absurd h (by decide)
  · cases step with
    | letter h | digit h _ | operator h => exact absurd h (by decide)
    | enter => exact some rfl rfl
    | call _ called => exact called

/-- Behind a row and what closes it. -/
theorem Site.Way.inOperand {r closing : Text} (way : Way rules p (r ++ closing) q) (row : IsRow r)
    (closes : IsClosing closing u) : q.InOperand := by
  rcases closes with rfl | ⟨rfl, _⟩
  · obtain ⟨_, _, step⟩ := way.last
    obtain ⟨called, _, _, rfl⟩ := step.of_closeMark
    refine .inr ⟨_, [], rfl, ?_⟩
    cases called <;> exact Ahead.noConfusion
  · obtain ⟨r, c, rfl⟩ := (List.eq_nil_or_concat r).resolve_left row.1
    rw [List.append_nil, List.concat_eq_append] at way
    obtain ⟨_, _, step⟩ := way.last
    exact step.of_operand (row.2 c (by simp))

theorem stripMarks_closing {closing : Text} (closes : IsClosing closing u) :
    stripMarks closing = [] := by
  rcases closes with rfl | ⟨rfl, _⟩ <;> rfl

/-- What an operand without an opening mark is. -/
theorem stripMarks_closed {r closing : Text} (row : IsRow r) (closes : IsClosing closing u) (t : Text) :
    stripMarks (r ++ closing ++ t) = r ++ stripMarks t := by
  rw [stripMarks_append, stripMarks_append, stripMarks_row row.2, stripMarks_closing closes,
    List.append_nil]

theorem IsSettled.behind (h : IsSettled (o ++ t)) (head : IsHead o t) :
    follow? .sum t = none ∧ IsSettled t := by
  obtain ⟨follows, sums⟩ := head.nothing h.sums
  exact ⟨follows, sums, fun operator sum member => h.others operator sum (List.mem_append_right _ member)⟩

theorem IsSettled.behind_sign {c : Char} (h : IsSettled (c :: t)) (sign : isSign c = true) :
    IsSettled t :=
  ⟨findOperation?_behind_sign sign h.sums, fun operator sum member =>
    h.others operator sum (.tail _ member)⟩

/-- What follows an operand is part of it, where there is nothing to solve. -/
theorem Parts.solid (h : Parts signs t) (behind : signs = none) (settled : IsSettled t)
    (follows : follow? .sum t = none) (place : p.InOperand) (site : Admits Rules.solved p t) :
    Solid (stripMarks t) := by
  induction h generalizing p with
  | nil => exact List.forall_mem_nil _
  | sign => contradiction
  | operator operator rest _ =>
    exfalso
    by_cases sum : operator.rank = .sum
    · obtain ⟨found, here⟩ := rest.exists_follow? operator
      rw [sum, follows] at here
      contradiction
    · exact settled.others operator sum (.head _)
  | @operand _ _ t head _ _ ih =>
    obtain ⟨follows', settled'⟩ := settled.behind head
    obtain ⟨opens, row, closes⟩ := head
    rcases opens with rfl | ⟨lead, sign, rfl⟩
    · rw [List.nil_append] at site ⊢
      obtain ⟨q, way, site⟩ := admits_append.1 site
      rw [stripMarks_closed row closes]
      exact List.forall_mem_append.2
        ⟨row.2, ih rfl settled' follows' (way.inOperand row closes) site⟩
    · obtain ⟨_, step, _⟩ := admits_cons.1 site
      exact absurd step place.not_openMark

/-- Where there is nothing to solve there is one operand, with signs in front of its marks and behind the
opening one. -/
theorem Parts.exists_row (h : Parts signs t) (front : signs = some n) (settled : IsSettled t)
    (site : Admits Rules.solved (outside .nothing []) t) :
    ∃ s lead r, (∀ c ∈ s, isSign c = true) ∧ IsLead lead ∧ IsRow r ∧
      stripMarks t = s ++ (lead ++ r) := by
  induction h generalizing n with
  | nil => contradiction
  | operator => contradiction
  | @sign _ c t sign _ _ ih =>
    obtain ⟨m, step, site⟩ := admits_cons.1 site
    obtain rfl : m = outside .nothing [] := by
      rcases step.of_sign sign with ⟨_, _, _, same⟩ | ⟨_, same, _⟩
      · exact same
      · cases same
    obtain ⟨s, lead, r, signs, lead', row, same⟩ := ih rfl (settled.behind_sign sign) site
    refine ⟨c :: s, lead, r, List.forall_mem_cons.2 ⟨sign, signs⟩, lead', row, ?_⟩
    rw [← List.singleton_append, stripMarks_append, same,
      stripMarks_signs (List.forall_mem_singleton.2 sign)]
    rfl
  | @operand _ _ t head _ rest _ =>
    obtain ⟨follows, settled'⟩ := settled.behind head
    obtain ⟨opens, row, closes⟩ := head
    have behind {p : Site} {r closing : Text} (row : IsRow r) (closes : IsClosing closing t)
        (site : Admits Rules.solved p (r ++ closing ++ t)) : IsRow (r ++ stripMarks t) := by
      obtain ⟨q, way, site⟩ := admits_append.1 site
      have solid := rest.solid rfl settled' follows (way.inOperand row closes) site
      exact ⟨List.append_ne_nil_of_left_ne_nil row.1 _, row.2.append solid⟩
    rcases opens with rfl | ⟨lead, sign, rfl⟩
    · rw [List.nil_append] at site ⊢
      refine ⟨[], [], _, List.forall_mem_nil _, isLead_nil, behind row closes site, ?_⟩
      rw [stripMarks_closed row closes]
      rfl
    · rw [List.append_assoc, List.cons_append] at site ⊢
      obtain ⟨_, _, site⟩ := admits_cons.1 site
      obtain ⟨_, _, site⟩ := admits_append.1 site
      refine ⟨[], lead, _, List.forall_mem_nil _, sign, behind row closes site, ?_⟩
      rw [stripMarks_mark (.inl rfl), stripMarks_append, stripMarks_lead sign,
        stripMarks_closed row closes]
      rfl

/-- The name in front of the place when the marks before it are gone. -/
def Site.Joins : Site → Text → Prop
  | outside .nothing name, joined | inside _ name, joined => joined = name
  | outside _ name, joined => ∃ marked, joined = marked ++ name ∧ Function.ofName? marked = none
  | opened _ _, joined => joined = []

theorem Site.Joins.marked {name joined : Text} {ahead : Ahead}
    (h : ∃ marked, joined = marked ++ name ∧ Function.ofName? marked = none) (some : ahead ≠ .nothing) :
    (outside ahead name).Joins joined := by
  cases ahead with
  | nothing => exact absurd rfl some
  | group | argument => exact h

/-- What is marked in front of a name is not the name of a function. -/
theorem Site.Joins.exists_marked {name joined : Text} {ahead : Ahead}
    (h : (outside ahead name).Joins joined) :
    ∃ marked, joined = marked ++ name ∧ Function.ofName? marked = none := by
  cases ahead with
  | nothing => exact ⟨[], h, ofName?_nil⟩
  | group | argument => exact h

theorem Site.joins_nil (ahead : Ahead) : (outside ahead []).Joins [] := by
  cases ahead with
  | nothing => rfl
  | group | argument => exact ⟨[], rfl, ofName?_nil⟩

/-- A number can stand behind the name also when the marks are gone. -/
theorem Site.Joins.not_function {ahead : Ahead} {name joined : Text}
    (h : (outside ahead name).Joins joined) (fits : Rules.solved.number name) :
    Function.ofName? joined = none := by
  obtain ⟨marked, rfl, other⟩ := h.exists_marked
  rcases fits with rfl | member
  · rwa [List.append_nil]
  · exact ofName?_of_mem (List.mem_append_right marked member)

/-- Marks are dropped, and no call comes up. -/
theorem Site.Way.callFree {joined : Text} (way : Way Rules.solved p t q) (h : p.Joins joined) :
    CallFree joined (stripMarks t) := by
  induction way generalizing joined with
  | nil => trivial
  | @cons _ _ _ c t step _ ih =>
    have kept (operand : isOperandChar c = true ∨ isOperator c = true) :
        stripMarks (c :: t) = c :: stripMarks t := by
      apply stripMarks_other
      constructor <;> (rintro rfl; exact absurd operand (by decide))
    cases step with
    | @letter ahead name _ letter =>
      rw [kept (.inl (isOperandChar_of_isAlpha letter)), callFree_letter letter]
      apply ih
      cases ahead with
      | nothing => exact congrArg (fun name => name ++ [c]) h
      | group | argument =>
        obtain ⟨marked, same, other⟩ := h
        exact ⟨marked, by rw [same, List.append_assoc], other⟩
    | digit digit fits =>
      rw [kept (.inl (isOperandChar_of_isArgumentChar digit)),
        callFree_other (not_isAlpha_of_isArgumentChar digit)]
      exact ⟨fun _ => h.not_function fits, ih (joins_nil .argument)⟩
    | operator operator =>
      rw [kept (.inr operator), callFree_between (isBetween_of_isOperator operator)]
      exact ih (joins_nil .nothing)
    | enter =>
      rw [stripMarks_mark (.inl rfl)]
      exact ih h
    | call _ called => exact called.elim
    | sign sign =>
      rw [kept (.inr (by rw [isOperator, sign, Bool.true_or])),
        callFree_between (isBetween_of_isSign sign)]
      exact ih rfl
    | first operand =>
      obtain rfl : joined = [] := h
      rw [kept (.inl operand)]
      by_cases letter : c.isAlpha = true
      · rw [callFree_letter letter]
        exact ih (firstName_of_letter letter).symm
      · have other : c.isAlpha = false := by simpa using letter
        rw [callFree_other other]
        exact ⟨fun _ => ofName?_nil, ih (firstName_of_other other).symm⟩
    | goOn letter =>
      rw [kept (.inl (isOperandChar_of_isAlpha letter)), callFree_letter letter]
      exact ih (congrArg (fun name => name ++ [c]) h)
    | @count _ name _ digit other =>
      obtain rfl : joined = name := h
      rw [kept (.inl (isOperandChar_of_isArgumentChar digit)),
        callFree_other (not_isAlpha_of_isArgumentChar digit)]
      exact ⟨fun _ => other, ih rfl⟩
    | @leave called name fits =>
      obtain rfl : joined = name := h
      rw [stripMarks_mark (.inr rfl)]
      refine ih (.marked ⟨joined, (List.append_nil joined).symm, fits⟩ ?_)
      cases called <;> exact Ahead.noConfusion

/-- With nothing left to solve, a segment is one signed row when its marks are gone. -/
theorem isPair_of_settled (slot : Slot.Completes 2 2 (.free 0) t)
    (site : Admits Rules.solved (outside .nothing []) t) (settled : IsSettled t) : IsPair (markValue t) := by
  obtain ⟨s, lead, r, signs, sign, row, same⟩ := (parts_of_admits slot site).exists_row rfl settled site
  have front : IsLead (reduceSigns (s ++ lead)) :=
    isLead_reduceSigns (List.forall_mem_append.2 ⟨signs, sign.signs⟩)
  have bare : bareOperand t = reduceSigns (s ++ lead) ++ r := by
    rw [bareOperand, same, ← List.append_assoc, reduceSigns_append_row _ row]
  obtain ⟨alone, name, way⟩ := site
  have free : CallFree [] (bareOperand t) := callFree_reduceSigns (way.callFree (joins_nil .nothing))
  rw [bare] at free
  exact ⟨_, r, front, row, free.of_letterless front.not_isAlpha, markValue_eq bare⟩

/-- A segment comes to one pair of marks, and they are well formed on the way. -/
theorem solveSegment_keeps (free : FunctionsFree context.bindings)
    (slot : Slot.Completes 1 1 (.free 0) t) (site : Admits Rules.drafted (outside .nothing []) t) :
    (solveSegment context t).Keeps Event.IsWellMarked IsPair := by
  have calls := solveCalls_keeps free (.nil _) site (resumes_of_nil rfl t)
  refine (Traced.keeps_emit (List.forall_mem_singleton.2 site.awaits)).bind fun _ _ => ?_
  refine calls.with_outcome.bind ?_
  rintro u ⟨solved, value⟩
  have slot' := slot.solveCalls (.inl (Nat.zero_le 1)) value
  refine (Traced.keeps_emit (List.forall_mem_singleton.2 solved.awaits)).bind fun _ _ => ?_
  refine ((solveOperations_keeps context solved).with_outcome.mapError Failure.fault).bind ?_
  rintro v ⟨left, value⟩
  exact Traced.keeps_pure (isPair_of_settled (slot'.solveOperations value) left
    (isSettled_of_solveOperations slot' solved value))

end Reckoner
