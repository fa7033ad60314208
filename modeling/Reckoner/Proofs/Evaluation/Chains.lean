import Reckoner.Proofs.Evaluation.Calls
import Reckoner.Proofs.Evaluation.Links
import Reckoner.Proofs.Outcome

set_option autoImplicit false

namespace Reckoner

open Double

variable {context : Context} {rank : Rank} {l next m c : Link} {ls more : List Link} {x : Float}
  {lead : Text} {glue : Option Operator} {operator : Operator}

theorem Link.joins_cases (rank : Rank) (l : Link) :
    l.joins rank = false ∨ ∃ operator, l.glue = some operator ∧ operator.rank = rank := by
  cases glue : l.glue with
  | none => exact .inl (by simp only [Link.joins, glue])
  | some operator =>
    by_cases same : operator.rank = rank
    · exact .inr ⟨operator, rfl, same⟩
    · exact .inl (by simp only [Link.joins, glue, same, decide_false])

theorem passLinks_apart (apart : next.joins rank = false) :
    passLinks context rank l (next :: ls) =
      (passLinks context rank next ls).map fun a => l :: a := by
  cases glue : next.glue with
  | none =>
    simp only [passLinks, glue]
    cases passLinks context rank next ls <;> rfl
  | some operator =>
    have other : ¬ operator.rank = rank := by
      simpa only [Link.joins, glue, decide_eq_false_iff_not] using apart
    simp only [passLinks, glue, other, if_false]
    cases passLinks context rank next ls <;> rfl

theorem passLinks_joined (glue : next.glue = some operator) (same : operator.rank = rank) :
    passLinks context rank l (next :: ls) =
      (Operation.solve context ⟨l.operand, operator, next.body⟩).bind fun x =>
        passLinks context rank (l.splice x) ls := by
  simp only [passLinks, glue, same, if_true]
  rfl

theorem passLinks_ne_ok_nil : passLinks context rank l ls ≠ .ok [] := by
  induction ls generalizing l with
  | nil => simp [passLinks]
  | cons next ls ih =>
    rcases next.joins_cases rank with joins | ⟨operator, glue, same⟩
    · rw [passLinks_apart joins]
      cases passLinks context rank next ls <;> simp [Except.map]
    · rw [passLinks_joined glue same]
      cases Operation.solve context ⟨l.operand, operator, next.body⟩ with
      | error e => simp [Except.bind]
      | ok x => exact ih

/-- A rank is solved on both sides of a link that it does not join to what stands before. -/
theorem passLinks_append (apart : m.joins rank = false) :
    passLinks context rank l (ls ++ m :: more) =
      (passLinks context rank l ls).bind fun a =>
        (passLinks context rank m more).map fun b => a ++ b := by
  induction ls generalizing l with
  | nil =>
    rw [List.nil_append, passLinks_apart apart]
    rfl
  | cons next ls ih =>
    rcases next.joins_cases rank with joins | ⟨operator, glue, same⟩
    · rw [List.cons_append, passLinks_apart joins, passLinks_apart joins, ih]
      cases passLinks context rank next ls with
      | error e => rfl
      | ok a => cases passLinks context rank m more <;> rfl
    · rw [List.cons_append, passLinks_joined glue same, passLinks_joined glue same]
      cases Operation.solve context ⟨l.operand, operator, next.body⟩ with
      | error e => rfl
      | ok x => exact ih

/-- A chain that is solved to one link goes on as that link. -/
theorem passLinks_continue (solved : passLinks context rank l ls = .ok [c]) (more : List Link) :
    passLinks context rank l (ls ++ more) = passLinks context rank c more := by
  induction ls generalizing l with
  | nil =>
    cases solved
    rfl
  | cons next ls ih =>
    rcases next.joins_cases rank with joins | ⟨operator, glue, same⟩
    · rw [passLinks_apart joins] at solved
      obtain ⟨a, inner, shape⟩ := map_eq_ok solved
      cases a with
      | nil => exact absurd inner passLinks_ne_ok_nil
      | cons d a => simp at shape
    · rw [passLinks_joined glue same] at solved
      obtain ⟨x, result, rest⟩ := bind_eq_ok solved
      rw [List.cons_append, passLinks_joined glue same, result]
      exact ih rest

theorem passLinks_fails {e : Fault} (failed : passLinks context rank l ls = .error e)
    (more : List Link) : passLinks context rank l (ls ++ more) = .error e := by
  induction ls generalizing l with
  | nil => contradiction
  | cons next ls ih =>
    rcases next.joins_cases rank with joins | ⟨operator, glue, same⟩
    · rw [passLinks_apart joins] at failed
      rw [List.cons_append, passLinks_apart joins]
      rw [ih (map_eq_error.1 failed)]
      rfl
    · rw [passLinks_joined glue same] at failed
      rw [List.cons_append, passLinks_joined glue same]
      rcases bind_eq_error failed with result | ⟨x, result, behind⟩
      · rw [result]
        rfl
      · rw [result]
        exact ih behind

/-- The chain that a pass leaves begins like the one before, and its links fit together as well. -/
theorem passLinks_valid {a : List Link} (h : l.Valid) (joined : ∀ m ∈ ls, Link.Joined m)
    (solved : passLinks context rank l ls = .ok a) :
    ∃ c more, a = c :: more ∧ c.glue = l.glue ∧ c.Valid ∧ (l.Joined → c.Joined) ∧
      ∀ m ∈ more, Link.Joined m := by
  induction ls generalizing l a with
  | nil =>
    cases solved
    exact ⟨l, [], rfl, rfl, h, id, nofun⟩
  | cons next ls ih =>
    have nextJoined := joined next (.head _)
    have rest : ∀ m ∈ ls, Link.Joined m := fun m hm => joined m (.tail _ hm)
    rcases next.joins_cases rank with joins | ⟨operator, glue, same⟩
    · rw [passLinks_apart joins] at solved
      obtain ⟨b, inner, rfl⟩ := map_eq_ok solved
      obtain ⟨c, more, rfl, _, _, kept, others⟩ := ih nextJoined.toValid rest inner
      exact ⟨l, c :: more, rfl, rfl, h, id, List.forall_mem_cons.2 ⟨kept nextJoined, others⟩⟩
    · rw [passLinks_joined glue same] at solved
      obtain ⟨x, _, after⟩ := bind_eq_ok solved
      obtain ⟨c, more, shape, start, valid, kept, others⟩ := ih (h.splice x) rest after
      exact ⟨c, more, shape, start, valid, fun hl => kept (hl.splice x), others⟩

def pass (context : Context) (rank : Rank) : List Link → Except Fault (List Link)
  | [] => .ok []
  | l :: ls => passLinks context rank l ls

/-- The terms of a chain, each of them solved. -/
def terms (context : Context) (ls : List Link) : Except Fault (List Link) :=
  (pass context .power ls).bind (pass context .product)

def total (context : Context) : List Link → Except Fault Link
  | [] => .ok ⟨none, [], []⟩
  | l :: ls => sumLinks context l ls

theorem pass_append (nonempty : ls ≠ []) (apart : m.joins rank = false) :
    pass context rank (ls ++ m :: more) =
      (pass context rank ls).bind fun a => (pass context rank (m :: more)).map fun b => a ++ b := by
  cases ls with
  | nil => contradiction
  | cons l ls => exact passLinks_append apart

theorem pass_fails {e : Fault} (failed : pass context rank ls = .error e) (more : List Link) :
    pass context rank (ls ++ more) = .error e := by
  cases ls with
  | nil => contradiction
  | cons l ls => exact passLinks_fails failed more

theorem pass_continue (solved : pass context rank ls = .ok [c]) (more : List Link) :
    pass context rank (ls ++ more) = passLinks context rank c more := by
  cases ls with
  | nil => simp [pass] at solved
  | cons l ls => exact passLinks_continue solved more

theorem total_fails {e : Fault} (failed : total context ls = .error e) (more : List Link) :
    total context (ls ++ more) = .error e := by
  cases ls with
  | nil => contradiction
  | cons l ls =>
    change sumLinks context l ls = _ at failed
    change sumLinks context l (ls ++ more) = _
    induction ls generalizing l with
    | nil => contradiction
    | cons next ls ih =>
      change (Operation.solve context _).bind _ = _ at failed
      change (Operation.solve context _).bind _ = _
      cases result : Operation.solve context ⟨l.body, leadOperator next.lead, next.operand⟩ with
      | error e =>
        rw [result] at failed
        exact failed
      | ok x =>
        rw [result] at failed
        exact ih _ failed

/-- Links that fit together, with what stands in front of the first operand. No call is seen in
them. -/
structure Part (glue : Option Operator) (lead : Text) (ls : List Link) : Prop where
  start : ∃ l rest, ls = l :: rest ∧ l.glue = glue ∧ l.lead = lead ∧ ∀ m ∈ rest, Link.Joined m
  valid : ∀ m ∈ ls, Link.Valid m

theorem Part.append {glue' : Option Operator} {lead' : Text} {ls' : List Link}
    (h : Part glue lead ls) (h' : Part glue' lead' ls') (joint : glue' = none → lead' ≠ []) :
    Part glue lead (ls ++ ls') := by
  obtain ⟨l, rest, rfl, start, front, joined⟩ := h.start
  obtain ⟨l', rest', rfl, rfl, rfl, joined'⟩ := h'.start
  have middle : l'.Joined := ⟨h'.valid l' (.head _), joint⟩
  refine ⟨⟨l, rest ++ l' :: rest', rfl, start, front, ?_⟩, ?_⟩
  · intro m hm
    rcases List.mem_append.1 hm with hm | hm
    · exact joined m hm
    · exact List.forall_mem_cons.2 ⟨middle, joined'⟩ m hm
  · intro m hm
    exact (List.mem_append.1 hm).elim (h.valid m) (h'.valid m)

theorem ends_linksText (joined : ∀ m ∈ ls, Link.Joined m) : Ends (linksText ls) := by
  cases ls with
  | nil => exact .inl rfl
  | cons l ls =>
    have h := joined l (.head _)
    rw [linksText_cons]
    cases glue : l.glue with
    | some operator =>
      rw [Link.symbol_of_some glue]
      exact .inr ⟨operator, _, rfl⟩
    | none =>
      rw [Link.symbol_of_none glue, Link.body]
      rcases isLead_cases_joined h.lead (h.joint glue) with plus | minus
      · rw [plus]
        exact .inr ⟨.add, _, rfl⟩
      · rw [minus]
        exact .inr ⟨.subtract, _, rfl⟩

theorem letterless_front (h : l.Valid) : Letterless (l.symbol ++ l.lead) := by
  have symbol : Letterless l.symbol := by
    cases glue : l.glue with
    | none =>
      rw [Link.symbol_of_none glue]
      exact nofun
    | some operator =>
      rw [Link.symbol_of_some glue]
      exact letterless_symbol operator
  have sign : Letterless l.lead := by
    rcases h.lead with none | plus | minus
    · rw [none]
      exact nofun
    · rw [plus]
      unfold Letterless
      decide
    · rw [minus]
      unfold Letterless
      decide
  intro c hc
  exact (List.mem_append.1 hc).elim (symbol c) (sign c)

/-- No call is solved in a chain without calls. -/
theorem solveCalls_links (valid : ∀ m ∈ l :: ls, Link.Valid m)
    (joined : ∀ m ∈ ls, Link.Joined m) (done : Text) :
    (solveCalls context done (linksText (l :: ls))).outcome = .ok (done ++ linksText (l :: ls)) := by
  induction ls generalizing l done with
  | nil =>
    have h := valid l (.head _)
    have shape : linksText [l] = l.symbol ++ l.lead ++ (l.operand ++ []) := by
      simp [linksText, Link.body]
    have none : Letterless [] := fun _ member => absurd member List.not_mem_nil
    rw [shape, solveCalls_append (letterless_front h), h.tame.solveCalls (.inl rfl),
      solveCalls_of_letterless none]
    simp
  | cons next ls ih =>
    have h := valid l (.head _)
    have shape : linksText (l :: next :: ls) =
        l.symbol ++ l.lead ++ (l.operand ++ linksText (next :: ls)) := by
      simp [linksText, Link.body]
    rw [shape, solveCalls_append (letterless_front h), h.tame.solveCalls (ends_linksText joined),
      ih (fun m hm => valid m (.tail _ hm)) (fun m hm => joined m (.tail _ hm))]
    simp

theorem passLinks_glue {a : List Link} (solved : passLinks context rank l ls = .ok a) :
    ∀ m ∈ a, m.glue = l.glue ∨ ∃ m' ∈ ls, m.glue = m'.glue ∧ m'.joins rank = false := by
  induction ls generalizing l a with
  | nil =>
    cases solved
    exact fun m hm => .inl (by rw [List.mem_singleton.1 hm])
  | cons next ls ih =>
    rcases next.joins_cases rank with joins | ⟨operator, glue, same⟩
    · rw [passLinks_apart joins] at solved
      obtain ⟨b, inner, rfl⟩ := map_eq_ok solved
      intro m hm
      rcases List.mem_cons.1 hm with rfl | hm
      · exact .inl rfl
      · rcases ih inner m hm with start | ⟨m', hm', other⟩
        · exact .inr ⟨next, .head _, start, joins⟩
        · exact .inr ⟨m', .tail _ hm', other⟩
    · rw [passLinks_joined glue same] at solved
      obtain ⟨x, _, after⟩ := bind_eq_ok solved
      intro m hm
      rcases ih after m hm with start | ⟨m', hm', other⟩
      · exact .inl start
      · exact .inr ⟨m', .tail _ hm', other⟩

theorem Part.pass {a : List Link} (part : Part glue lead ls)
    (solved : Reckoner.pass context rank ls = .ok a) : ∃ lead', Part glue lead' a := by
  obtain ⟨l, rest, rfl, rfl, _, joined⟩ := part.start
  obtain ⟨c, more, rfl, start, valid, _, others⟩ :=
    passLinks_valid (part.valid l (.head _)) joined solved
  exact ⟨c.lead, ⟨c, more, rfl, start, rfl, others⟩,
    List.forall_mem_cons.2 ⟨valid, fun m hm => (others m hm).toValid⟩⟩

/-- Between terms there are signs only. -/
theorem Part.terms {b : List Link} (part : Part none lead ls)
    (solved : Reckoner.terms context ls = .ok b) :
    ∃ lead', Part none lead' b ∧ ∀ m ∈ b, m.glue = none := by
  obtain ⟨a, powers, products⟩ := bind_eq_ok solved
  obtain ⟨_, middle⟩ := part.pass powers
  obtain ⟨lead', last⟩ := middle.pass products
  refine ⟨lead', last, ?_⟩
  obtain ⟨l, rest, rfl, start, _⟩ := part.start
  obtain ⟨l', rest', rfl, start', _⟩ := middle.start
  intro m hm
  rcases passLinks_glue products m hm with none | ⟨m', hm', same, notProduct⟩
  · exact none.trans start'
  · rcases passLinks_glue powers m' (.tail _ hm') with none | ⟨m'', hm'', same', notPower⟩
    · exact same.trans (none.trans start)
    · cases glue : m''.glue with
      | none => rw [same, same', glue]
      | some operator =>
        have notSum := (part.valid m'' (.tail _ hm'')).glue operator glue
        simp only [Link.joins, same', glue, decide_eq_false_iff_not] at notProduct notPower
        cases rank : operator.rank with
        | power => exact absurd rank notPower
        | product => exact absurd rank notProduct
        | sum => exact absurd rank notSum

/-- The terms of a chain are solved one by one, where a sign alone separates them. -/
theorem terms_append {lead' : Text} {ls' : List Link} (part : Part glue lead ls)
    (part' : Part none lead' ls') :
    Matches (fun a b => a = b) (terms context (ls ++ ls'))
      ((terms context ls).bind fun a => (terms context ls').map fun b => a ++ b) := by
  have outside {l : Link} (start : l.glue = none) (rank : Rank) : l.joins rank = false := by
    simp only [Link.joins, start]
  obtain ⟨l, rest, rfl, _⟩ := part.start
  obtain ⟨l', rest', rfl, start', _⟩ := part'.start
  have powers : pass context .power (l :: rest ++ l' :: rest') = _ :=
    pass_append (List.cons_ne_nil l rest) (outside start' _)
  unfold terms
  rw [powers]
  cases left : pass context .power (l :: rest) with
  | error e => trivial
  | ok a =>
    cases right : pass context .power (l' :: rest') with
    | error e =>
      simp only [Except.bind, Except.map]
      cases pass context .product a <;> trivial
    | ok b =>
      obtain ⟨_, middle⟩ := part.pass left
      obtain ⟨_, middle'⟩ := part'.pass right
      obtain ⟨c, more, rfl, _⟩ := middle.start
      obtain ⟨c', more', rfl, next', _⟩ := middle'.start
      simp only [Except.bind, Except.map]
      rw [pass_append (List.cons_ne_nil c more) (outside next' _)]
      cases pass context .product (c :: more) with
      | error e => trivial
      | ok d =>
        cases pass context .product (c' :: more') with
        | error e => trivial
        | ok d' => rfl

theorem sumLinks_valid (h : l.Valid) (solved : sumLinks context l ls = .ok c) : c.Valid := by
  induction ls generalizing l with
  | nil =>
    cases solved
    exact h
  | cons next ls ih =>
    obtain ⟨x, _, after⟩ := bind_eq_ok solved
    have next : Link.Valid ⟨none, valueSign x, sizeText (magnitude x)⟩ :=
      ⟨isLead_valueSign x, .row (isTame_sizeText _), nofun⟩
    exact ih next after

theorem Part.total (part : Part none lead ls) (solved : Reckoner.total context ls = .ok c) :
    c.Valid := by
  obtain ⟨l, rest, rfl, _⟩ := part.start
  exact sumLinks_valid (part.valid l (.head _)) solved

theorem total_snoc (nonempty : ls ≠ []) :
    total context (ls ++ [m]) = (total context ls).bind fun c =>
      (Operation.solve context ⟨c.body, leadOperator m.lead, m.operand⟩).map fun x =>
        ⟨none, valueSign x, sizeText (magnitude x)⟩ := by
  cases ls with
  | nil => contradiction
  | cons l ls =>
    change sumLinks context l (ls ++ [m]) = (sumLinks context l ls).bind _
    clear nonempty
    induction ls generalizing l with
    | nil =>
      change (Operation.solve context _).bind _ = (Operation.solve context _).map _
      cases Operation.solve context ⟨l.body, leadOperator m.lead, m.operand⟩ <;> rfl
    | cons next ls ih =>
      change (Operation.solve context _).bind _ = ((Operation.solve context _).bind _).bind _
      cases Operation.solve context ⟨l.body, leadOperator next.lead, next.operand⟩ with
      | error e => rfl
      | ok x => exact ih _

theorem solveOperations_links (part : Part none lead ls) :
    (solveOperations context (linksText ls)).outcome =
      ((terms context ls).bind (total context)).map Link.body := by
  obtain ⟨l, rest, rfl, start, _, joined⟩ := part.start
  have h := part.valid l (.head _)
  have outside {l : Link} (start : l.glue = none) (rank : Rank) : l.joins rank = false := by
    simp only [Link.joins, start]
  have powers : (solveRank context .power ([] ++ linksText (l :: rest))).outcome = _ :=
    solveRank_links (by decide) (skips_nil _) closed_nil h (fun no => absurd rfl no)
      (outside start _) joined
  simp only [List.nil_append] at powers
  have whole : terms context (l :: rest) =
      (passLinks context .power l rest).bind (pass context .product) := rfl
  rw [solveOperations_outcome, powers]
  cases solved : passLinks context .power l rest with
  | error e =>
    rw [whole, solved]
    rfl
  | ok a =>
    obtain ⟨c, more, rfl, same, valid, _, others⟩ := passLinks_valid h joined solved
    have products : (solveRank context .product ([] ++ linksText (c :: more))).outcome = _ :=
      solveRank_links (by decide) (skips_nil _) closed_nil valid (fun no => absurd rfl no)
        (outside (same.trans start) _) others
    simp only [List.nil_append] at products
    have after : terms context (l :: rest) = passLinks context .product c more := by
      rw [whole, solved]
      rfl
    rw [after]
    simp only [Except.map, Except.bind, products]
    cases solved' : passLinks context .product c more with
    | error e => rfl
    | ok b =>
      obtain ⟨_, last, unglued⟩ := part.terms (after.trans solved')
      obtain ⟨d, others, rfl, start', _, joined'⟩ := last.start
      exact solveRank_sums (last.valid d (.head _)) start' fun m hm =>
        ⟨joined' m hm, unglued m (.tail _ hm)⟩

/-- The value of a segment that is a chain, in marks. -/
theorem solveSegment_links (part : Part none lead ls) :
    (solveSegment context (linksText ls)).outcome =
      (((terms context ls).bind (total context)).mapError Failure.fault).map
        fun c => markValue c.body := by
  obtain ⟨l, rest, rfl, _, _, joined⟩ := part.start
  have calls : (solveCalls context [] (linksText (l :: rest))).outcome = _ :=
    solveCalls_links part.valid joined []
  rw [solveSegment_outcome, calls, List.nil_append]
  simp only [solveOperations_links part, Except.bind]
  cases (terms context (l :: rest)) with
  | error e => rfl
  | ok b =>
    simp only
    cases total context b <;> rfl

theorem Link.Valid.part (h : l.Valid) : Part l.glue l.lead [l] :=
  ⟨⟨l, [], rfl, rfl, rfl, fun _ none => absurd none List.not_mem_nil⟩, by simpa using h⟩

/-- A single operand with its sign has nothing to be solved. -/
theorem solveOperations_single (h : l.Valid) (start : l.glue = none) :
    (solveOperations context l.body).outcome = .ok l.body := by
  have part := h.part
  rw [start] at part
  have solved : (solveOperations context (linksText [l])).outcome = _ := solveOperations_links part
  rw [linksText_cons, Link.symbol_of_none start, linksText, List.nil_append, List.append_nil]
    at solved
  exact solved

theorem solveSegment_single (h : l.Valid) (start : l.glue = none) :
    (solveSegment context l.body).outcome = .ok (markValue l.body) := by
  have calls : (solveCalls context [] (linksText [l])).outcome = _ :=
    solveCalls_links (by simpa using h) (fun _ none => absurd none List.not_mem_nil) []
  rw [linksText_cons, Link.symbol_of_none start, linksText, List.nil_append, List.append_nil,
    List.nil_append] at calls
  rw [solveSegment_outcome, calls]
  simp only [Except.bind, solveOperations_single h start]
  rfl

end Reckoner
