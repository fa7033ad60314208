import Reckoner.Proofs.Evaluation.Grammar
import Reckoner.Proofs.Evaluation.Groups
import Reckoner.Proofs.Evaluation.Terms

set_option autoImplicit false

namespace Reckoner

open Double

mutual

/-- The chain that an expression is once its groups are solved. -/
def Expr.links (context : Context) : Expr → Except Failure (List Link)
  | .first lead t => t.links context none lead.1
  | .next e operator t => do
    let ls ← e.links context
    let more ← t.links context none [operator.1.symbol]
    return ls ++ more

def Term.links (context : Context) (glue : Option Operator) (lead : Text) :
    Term → Except Failure (List Link)
  | .first f => f.links context glue lead
  | .next t operator lead' f => do
    let ls ← t.links context glue lead
    let more ← f.links context (some operator.1) lead'.1
    return ls ++ more

/-- The links that a factor is, behind what stands in front of it. -/
def Factor.links (context : Context) (glue : Option Operator) (lead : Text) :
    Factor → Except Failure (List Link)
  | .atom a => do
    let o ← a.flat context
    return [⟨glue, lead, o⟩]
  | .power a operator lead' b => do
    let o ← a.flat context
    let o' ← b.flat context
    return [⟨glue, lead, o⟩, ⟨some operator.1, lead'.1, o'⟩]

def Atom.flat (context : Context) : Atom → Except Failure Text
  | .literal l => .ok l.text
  | .variable x => .ok x.text
  | .group e => do
    let ls ← e.links context
    (solveSegment context (linksText ls)).outcome

end

variable {context : Context} {glue : Option Operator} {lead : Text}

/-- What stands in front of an operand. -/
def frontText (glue : Option Operator) (lead : Text) : Text := (Link.mk glue lead []).symbol ++ lead

theorem flattens_front (glue : Option Operator) (sign : IsLead lead) :
    Flattens context (frontText glue lead) (.ok (frontText glue lead)) := by
  have symbol (c : Char) (hc : c ∈ (Link.mk glue lead []).symbol) : c ≠ '(' ∧ c ≠ ')' := by
    cases glue with
    | none => contradiction
    | some operator =>
      rw [List.mem_singleton.1 hc]
      cases operator <;> decide
  have outside : ∀ c ∈ lead, c ≠ '(' ∧ c ≠ ')' := by
    rcases sign with rfl | rfl | rfl <;> decide
  have all : ∀ c ∈ frontText glue lead, c ≠ '(' ∧ c ≠ ')' := fun c hc =>
    (List.mem_append.1 hc).elim (symbol c) (outside c)
  exact flattens_of_flat (fun h => (all _ h).1 rfl) (fun h => (all _ h).2 rfl)

theorem flattens_row {r : Text} (h : IsRow r) : Flattens context r (.ok r) :=
  flattens_of_flat (fun no => absurd (h.2 _ no) (by decide))
    (fun no => absurd (h.2 _ no) (by decide))

theorem linksText_singleton (o : Text) :
    linksText [⟨glue, lead, o⟩] = frontText glue lead ++ o := by
  simp [linksText, Link.body, frontText, Link.symbol]

/-- Two parts of a chain, one behind the other. -/
theorem Flattens.links {t t' : Text} {a b : Except Failure (List Link)}
    (h : Flattens context t (a.map linksText)) (h' : Flattens context t' (b.map linksText)) :
    Flattens context (t ++ t') ((do return (← a) ++ (← b) : Except Failure (List Link)).map
      linksText) := by
  have both := h.append h'
  cases a with
  | error e => exact both
  | ok ls =>
    cases b with
    | error e => exact both
    | ok ls' =>
      change Flattens context (t ++ t') (.ok (linksText (ls ++ ls')))
      rw [linksText_append]
      exact both

mutual

/-- Solving the groups of an expression leaves its chain. -/
theorem Expr.flattens : (e : Expr) → Flattens context e.text ((e.links context).map linksText)
  | .first lead t => t.flattens none lead.2
  | .next e operator t => e.flattens.links (t.flattens none (isLead_symbol operator.2))

theorem Term.flattens (glue : Option Operator) {lead : Text} (sign : IsLead lead) : (t : Term) →
    Flattens context (frontText glue lead ++ t.text) ((t.links context glue lead).map linksText)
  | .first f => f.flattens glue sign
  | .next t operator lead' f => by
    have both := (t.flattens glue sign).links (f.flattens (some operator.1) lead'.2)
    rw [List.append_assoc] at both
    exact both

theorem Factor.flattens (glue : Option Operator) {lead : Text} (sign : IsLead lead) :
    (f : Factor) →
    Flattens context (frontText glue lead ++ f.text) ((f.links context glue lead).map linksText)
  | .atom a => by
    have both := (flattens_front glue sign).append a.flattens
    change Flattens context (frontText glue lead ++ a.text)
      (((a.flat context).map fun o => [⟨glue, lead, o⟩]).map linksText)
    cases flat : a.flat context with
    | error e =>
      rw [flat] at both
      exact both
    | ok o =>
      rw [flat] at both
      change Flattens context _ (.ok (linksText [⟨glue, lead, o⟩]))
      rw [linksText_singleton]
      exact both
  | .power a operator lead' b => by
    have left := (flattens_front glue sign).append a.flattens
    have right := (flattens_front (some operator.1) lead'.2).append
      b.flattens
    have both := left.append right
    rw [List.append_assoc] at both
    cases flat : a.flat context with
    | error e =>
      rw [flat] at both
      simp only [Factor.links, flat]
      exact both
    | ok o =>
      cases flat' : b.flat context with
      | error e =>
        rw [flat, flat'] at both
        simp only [Factor.links, flat, flat']
        exact both
      | ok o' =>
        rw [flat, flat'] at both
        have shape : linksText [⟨glue, lead, o⟩, ⟨some operator.1, lead'.1, o'⟩] =
            (frontText glue lead ++ o) ++ (frontText (some operator.1) lead'.1 ++ o') := by
          rw [← linksText_singleton, ← linksText_singleton, ← linksText_append]
          rfl
        simp only [Factor.links, flat, flat']
        change Flattens context _ (.ok (linksText [⟨glue, lead, o⟩, _]))
        rw [shape]
        exact both

theorem Atom.flattens : (a : Atom) → Flattens context a.text (a.flat context)
  | .literal l => flattens_row l.isRow
  | .variable x => flattens_row x.isTame.row
  | .group e => by
    have group := e.flattens.group
    change Flattens context _ ((e.links context).bind fun ls =>
      (solveSegment context (linksText ls)).outcome)
    cases links : e.links context with
    | error e =>
      rw [links] at group
      exact group
    | ok ls =>
      rw [links] at group
      exact group

end

theorem part_singleton {o : Text} (sign : IsLead lead)
    (front : ∀ operator, glue = some operator → operator.rank ≠ .sum) (tame : IsTameOperand o) :
    Part glue lead [⟨glue, lead, o⟩] :=
  ⟨⟨_, [], rfl, rfl, rfl, nofun⟩, List.forall_mem_singleton.2 ⟨sign, tame, front⟩⟩

theorem front_of_rank {rank : Rank} (operator : OperatorOf rank) (products : rank ≠ .sum) :
    ∀ op, some operator.1 = some op → op.rank ≠ .sum := by
  intro op same
  cases same
  rw [operator.2]
  exact products

theorem none_front : ∀ operator, (none : Option Operator) = some operator →
    operator.rank ≠ .sum := nofun

mutual

/-- The links of an expression fit together. -/
theorem Expr.part : (e : Expr) → {ls : List Link} → e.links context = .ok ls →
    ∃ lead, Part none lead ls
  | .first lead t, _, h => ⟨lead.1, t.part lead.2 none_front h⟩
  | .next e operator t, _, h => by
    obtain ⟨a, left, rest⟩ := bind_eq_ok h
    obtain ⟨b, right, same⟩ := bind_eq_ok rest
    cases same
    obtain ⟨lead, part⟩ := e.part left
    exact ⟨lead, part.append (t.part (isLead_symbol operator.2) none_front right)
      fun _ => List.cons_ne_nil _ _⟩

theorem Term.part {glue : Option Operator} {lead : Text} (sign : IsLead lead)
    (front : ∀ operator, glue = some operator → operator.rank ≠ .sum) : (t : Term) →
    {ls : List Link} → t.links context glue lead = .ok ls → Part glue lead ls
  | .first f, _, h => f.part sign front h
  | .next t operator lead' f, _, h => by
    obtain ⟨a, left, rest⟩ := bind_eq_ok h
    obtain ⟨b, right, same⟩ := bind_eq_ok rest
    cases same
    exact (t.part sign front left).append
      (f.part lead'.2 (front_of_rank operator (by decide)) right) nofun

theorem Factor.part {glue : Option Operator} {lead : Text} (sign : IsLead lead)
    (front : ∀ operator, glue = some operator → operator.rank ≠ .sum) : (f : Factor) →
    {ls : List Link} → f.links context glue lead = .ok ls → Part glue lead ls
  | .atom a, _, h => by
    obtain ⟨o, flat, same⟩ := bind_eq_ok h
    cases same
    exact part_singleton sign front (a.tame flat)
  | .power a operator lead' b, _, h => by
    obtain ⟨o, flat, rest⟩ := bind_eq_ok h
    obtain ⟨o', flat', same⟩ := bind_eq_ok rest
    cases same
    exact (part_singleton sign front (a.tame flat)).append (part_singleton lead'.2
      (front_of_rank operator (by decide)) (b.tame flat')) nofun

theorem Atom.tame : (a : Atom) → {o : Text} → a.flat context = .ok o → IsTameOperand o
  | .literal l, _, h => by
    cases h
    exact .row l.isTame
  | .variable x, _, h => by
    cases h
    exact .row x.isTame
  | .group e, _, h => by
    obtain ⟨ls, links, solved⟩ := bind_eq_ok h
    obtain ⟨lead, part⟩ := e.part links
    rw [solveSegment_links part] at solved
    obtain ⟨c, value, rfl⟩ := map_eq_ok solved
    obtain ⟨b, split, sum⟩ := bind_eq_ok (mapError_eq_ok.1 value)
    obtain ⟨_, last, _⟩ := part.terms split
    have valid := last.total sum
    exact valid.tame.markValue valid.lead

end

/-- An operand that stands for a number, up to the sign of a zero. -/
def Holds (context : Context) (o : Text) (v : Float) : Prop :=
  v.isNaN = false ∧ ∃ x, Denotes context o x ∧ Alike x v

theorem Literal.number (l : Literal) : l.value.isNaN = false := by
  have notNan := bits_le ⟨digitsValue (l.whole ++ l.places), -l.places.length⟩
  rw [isNaN_eq_false_iff]
  unfold Literal.value Numeral.signed
  rw [magnitude_ofMagnitude _ notNan]
  exact notNan

/-- The groups of a part of the chain fail where its subtree does, or its links come to what the
subtree comes to. -/
def Comes {α : Type} (related : α → Float → Prop) (g : List Link → Except Fault α)
    (links : Except Failure (List Link)) (value : Except Fault Float) : Prop :=
  (∃ e e', links = .error e ∧ value = .error e') ∨
    ∃ ls, links = .ok ls ∧ Matches related (g ls) value

/-- Of two parts the second one counts only if the first one has a value. -/
theorem Comes.next {α β γ : Type} {related : α → Float → Prop} {related' : β → Float → Prop}
    {then' : γ → Float → Prop} {g : List Link → Except Fault α} {g' : List Link → Except Fault β}
    {f : List Link → Except Fault γ} {a b : Except Failure (List Link)} {r r' : Except Fault Float}
    {k : Float → Float → Except Fault Float} (left : Comes related g a r)
    (right : ∀ v, r = .ok v → Comes related' g' b r')
    (both : ∀ ls more, a = .ok ls → b = .ok more → Matches related (g ls) r →
      (∀ v, r = .ok v → Matches related' (g' more) r') →
      Matches then' (f (ls ++ more)) (r.bind fun x => r'.bind fun y => k x y)) :
    Comes then' f (do return (← a) ++ (← b)) (r.bind fun x => r'.bind fun y => k x y) := by
  obtain ⟨e, e', rfl, rfl⟩ | ⟨ls, rfl, first⟩ := left
  · exact .inl ⟨e, e', rfl, rfl⟩
  · cases b with
    | error e =>
      obtain ⟨x, v, _, rfl, _⟩ | ⟨_, e', _, rfl⟩ := first.cases
      · obtain ⟨_, e', _, rfl⟩ | ⟨_, wrong, _⟩ := right v rfl
        · exact .inl ⟨e, e', rfl, rfl⟩
        · contradiction
      · exact .inl ⟨e, e', rfl, rfl⟩
    | ok more =>
      refine .inr ⟨ls ++ more, rfl, both ls more rfl rfl first ?_⟩
      intro v solved
      obtain ⟨_, _, wrong, _⟩ | ⟨_, same, second⟩ := right v solved
      · contradiction
      · cases same
        exact second

theorem Carries.holds {c : Link} {v : Float} (h : Carries context none [] c v) :
    Holds context (markValue c.body) v := by
  obtain ⟨y, value, front, alike⟩ := h.body isLead_nil
  exact ⟨h.number, _, value.markValue front, alike⟩

mutual

/-- The chain of an expression comes to its value. -/
theorem Expr.comes : (e : Expr) → e.Bound context → e.NeverDividesByZero context →
    Comes (Carries context none []) (fun ls => (terms context ls).bind (total context))
      (e.links context) (e.eval context)
  | .first lead t, bound, careful => by
    change Comes _ _ (t.links context none lead.1) ((t.eval context).map (applyLead lead.1))
    obtain ⟨e, e', links, value⟩ | ⟨ls, links, h⟩ := t.comes lead.2 none_front bound careful
    · rw [links, value]
      exact .inl ⟨e, e', rfl, rfl⟩
    · refine .inr ⟨ls, links, ?_⟩
      change Matches _ ((terms context ls).bind (total context)) _
      obtain ⟨a, v, solved, value, c, rfl, hc⟩ | ⟨e, e', solved, value⟩ := h.cases
      · rw [solved, value]
        exact hc.whole lead.2
      · rw [solved, value]
        trivial
  | .next e operator t, bound, careful => by
    refine (e.comes bound.1 careful.1).next
      (fun v value => t.comes (isLead_symbol operator.2) none_front bound.2 (careful.2 v value)) ?_
    intro ls more first second left right
    obtain ⟨lead, part⟩ := e.part first
    have part' := t.part (isLead_symbol operator.2) none_front second
    exact Carries.next part part' operator.2 left right

theorem Term.comes {glue : Option Operator} {lead : Text} (sign : IsLead lead)
    (front : ∀ operator, glue = some operator → operator.rank ≠ .sum) : (t : Term) →
    t.Bound context → t.NeverDividesByZero context →
    Comes (Single context glue lead) (terms context) (t.links context glue lead) (t.eval context)
  | .first f, bound, careful => by
    obtain ⟨e, e', links, value⟩ | ⟨ls, links, h⟩ := f.comes sign bound careful
    · exact .inl ⟨e, e', links, value⟩
    · refine .inr ⟨ls, links, ?_⟩
      exact h.bind_left fun a v single => by
        obtain ⟨c, rfl, hc⟩ := single
        exact ⟨[c], rfl, c, rfl, hc⟩
  | .next t operator lead' f, bound, careful => by
    refine (t.comes sign front bound.1 careful.1).next (fun v value =>
      f.comes lead'.2 bound.2 (careful.2 v value).1) ?_
    intro ls more first second left right
    have part := t.part sign front first
    have part' := f.part lead'.2 (front_of_rank operator (by decide)) second
    exact Single.product part part' operator.2 lead'.2 left right fun v value =>
      (careful.2 v value).2

theorem Factor.comes {glue : Option Operator} {lead : Text} (sign : IsLead lead) :
    (f : Factor) → f.Bound context → f.NeverDividesByZero context →
    Comes (Single context glue lead) (pass context .power) (f.links context glue lead)
      (f.eval context)
  | .atom a, bound, careful => by
    change Comes _ _ ((a.flat context).bind fun o => .ok [⟨glue, lead, o⟩]) (a.eval context)
    obtain ⟨o, v, flat, value, number, x, denotes, alike⟩ | ⟨e, e', flat, value⟩ :=
      (a.matches_eval bound careful).cases
    · rw [flat, value]
      exact .inr ⟨_, rfl, _, rfl, carries_operand denotes alike number sign⟩
    · rw [flat, value]
      exact .inl ⟨e, e', rfl, rfl⟩
  | .power a operator lead' b, bound, careful => by
    change Comes _ _ ((a.flat context).bind fun o => (b.flat context).bind fun o' =>
        .ok [⟨glue, lead, o⟩, ⟨some operator.1, lead'.1, o'⟩])
      ((a.eval context).bind fun x => (b.eval context).bind fun y =>
        combine operator.1 x (applyLead lead'.1 y))
    obtain ⟨o, v, flat, value, _, x, denotes, alike⟩ | ⟨e, e', flat, value⟩ :=
      (a.matches_eval bound.1 careful.1).cases
    · obtain ⟨o', w, flat', value', _, y, denotes', alike'⟩ | ⟨e, e', flat', value'⟩ :=
        (b.matches_eval bound.2 (careful.2 v value)).cases
      · rw [flat, value, flat', value']
        refine .inr ⟨_, rfl, ?_⟩
        change Matches _ (passLinks context .power _ _) _
        rw [passLinks_joined rfl operator.2]
        exact (matches_power operator.2 denotes alike denotes' alike' sign lead'.2).bind_left
          fun x z h => ⟨_, rfl, _, rfl, h⟩
      · rw [flat, value, flat', value']
        exact .inl ⟨e, e', rfl, rfl⟩
    · rw [flat, value]
      exact .inl ⟨e, e', rfl, rfl⟩

theorem Atom.matches_eval : (a : Atom) → a.Bound context → a.NeverDividesByZero context →
    Matches (Holds context) (a.flat context) (a.eval context)
  | .literal l, _, _ => ⟨l.number, l.value, l.denotes, Alike.refl _⟩
  | .variable x, bound, _ => by
    obtain ⟨v, binding, number⟩ := bound
    change Matches _ (.ok x.text) (x.eval context)
    unfold Name.eval
    rw [binding]
    exact ⟨number, v, Name.denotes binding, Alike.refl v⟩
  | .group e, bound, careful => by
    change Matches _ ((e.links context).bind fun ls => (solveSegment context (linksText ls)).outcome)
      (e.eval context)
    obtain ⟨f, f', links, value⟩ | ⟨ls, links, h⟩ := e.comes bound careful
    · rw [links, value]
      trivial
    · obtain ⟨lead, part⟩ := e.part links
      rw [links]
      change Matches _ (solveSegment context (linksText ls)).outcome _
      rw [solveSegment_links part]
      exact (h.mapError _).map_left fun c v carries => carries.holds

end

/-- An expression has the value of its tree, where no division is by zero; and where the tree has
no value, neither has the expression. -/
theorem solveExpression_matches_eval (e : Expr) (bound : e.Bound context)
    (careful : e.NeverDividesByZero context) :
    Matches (fun x y => (x == y) = true) (solveExpression context e.text).outcome
      (e.eval context) := by
  rw [e.flattens.solveExpression]
  obtain ⟨f, f', links, value⟩ | ⟨ls, links, h⟩ := e.comes bound careful
  · rw [links, value]
    trivial
  · obtain ⟨lead, part⟩ := e.part links
    rw [links]
    change Matches _ ((solveSegment context (linksText ls)).outcome.bind _) _
    rw [solveSegment_links part]
    refine ((h.mapError Failure.fault).map_left fun c v carries => carries.holds).bind_left ?_
    rintro o v ⟨number, x, denotes, alike⟩
    have solved := (denotes.resolve isLead_nil).1
    rw [List.nil_append] at solved
    refine ⟨x, by rw [solved]; rfl, alike.beq ?_⟩
    rw [alike.isNaN_eq, number]

def sample : Expr :=
  let x : Name := ⟨['x'], by decide, by unfold Letters; decide, by decide, by decide⟩
  let three : Literal := ⟨['3'], [], by decide, by decide⟩
  let third : Term := .next (.first (.atom (.variable x))) ⟨.divide, rfl⟩ ⟨['-'], .inr (.inr rfl)⟩
    (.atom (.literal three))
  .next (.first ⟨['-'], .inr (.inr rfl)⟩ (.first (.atom (.variable x)))) ⟨.subtract, rfl⟩ third

theorem solveExpression_sample :
    Matches (fun x y => (x == y) = true)
      (solveExpression ⟨[(['x'], .number 6)], .degrees⟩ ['-', 'x', '-', 'x', '/', '-', '3']).outcome
      (sample.eval ⟨[(['x'], .number 6)], .degrees⟩) := by
  have number : Name.Bound ⟨[(['x'], .number 6)], .degrees⟩
      ⟨['x'], by decide, by unfold Letters; decide, by decide, by decide⟩ :=
    ⟨6, by decide, by decide⟩
  refine solveExpression_matches_eval sample ⟨number, number, trivial⟩ ?_
  refine ⟨trivial, fun _ _ => ⟨trivial, fun _ _ => ⟨trivial, fun _ y value => ?_⟩⟩⟩
  rw [← Except.ok.inj value]
  decide +kernel

end Reckoner
