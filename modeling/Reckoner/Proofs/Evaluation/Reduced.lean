import Reckoner.Proofs.Double.Sign
import Reckoner.Proofs.Evaluation.Parts

set_option autoImplicit false

/- Signs that are reduced before any operation is solved. The operations reduce them one after another
anyway, so the value of a text stays the same, unless the text begins with two signs: the first one
of these is no part of the operand behind them. -/
namespace Reckoner

open Double

/-- Neither search finds anything, or both find operations of the same value, between texts that
differ in how often their signs are written only. -/
def FoundSame (context : Context) :
    Option (Text × Operation × Text) → Option (Text × Operation × Text) → Prop
  | none, none => True
  | some (before, operation, after), some (before', operation', after') =>
    reduceSigns before = reduceSigns before' ∧ reduceSigns after = reduceSigns after' ∧
      Matches (fun x y => x = y) (operation.solve context) (operation'.solve context)
  | _, _ => False

def BeginsSigned (t : Text) : Prop :=
  ∃ c d u, t = c :: d :: u ∧ isSign c = true ∧ isSign d = true

variable {context : Context} {signs : Option Nat} {rank : Rank} {operator operator' : Operator}
  {lead left o r s t t' u u' : Text} {c : Char}

theorem reduceSigns_congr (h : reduceSigns t = reduceSigns t') (h' : reduceSigns u = reduceSigns u') :
    reduceSigns (t ++ u) = reduceSigns (t' ++ u') := by
  rw [← reduceSigns_reduceSigns_append, h, reduceSigns_reduceSigns_append,
    ← reduceSigns_append_reduceSigns, h', reduceSigns_append_reduceSigns]

theorem not_beginsSigned_reduceSigns (t : Text) : ¬ BeginsSigned (reduceSigns t) := by
  induction t with
  | nil => exact fun ⟨_, _, _, shape, _⟩ => nomatch shape
  | cons e t ih =>
    intro ⟨c, d, u, shape, hc, hd⟩
    rw [reduceSigns_cons] at shape
    cases rest : reduceSigns t with
    | nil =>
      rw [rest] at shape
      cases shape
    | cons f r =>
      rw [rest] at shape ih
      by_cases signs : isSign e = true ∧ isSign f = true
      · rw [attachSign_of_signs signs.1 signs.2] at shape
        cases shape
        exact ih ⟨f, d, u, rfl, signs.2, hd⟩
      · have apart : (isSign e && isSign f) = false := by simpa using signs
        simp only [attachSign, apart, Bool.false_eq_true, if_false] at shape
        cases shape
        exact signs ⟨hc, hd⟩

/-- Marks do not matter to how signs are reduced once they are left out. -/
theorem bareOperand_reduceSigns (t : Text) : bareOperand (reduceSigns t) = bareOperand t := by
  have attached (c : Char) (u : Text) : bareOperand (attachSign c u) = bareOperand (c :: u) := by
    cases u with
    | nil => rfl
    | cons d u =>
      by_cases signs : isSign c = true ∧ isSign d = true
      · obtain ⟨hc, hd⟩ := signs
        have kept {e : Char} (he : isSign e = true) (u : Text) :
            stripMarks (e :: u) = e :: stripMarks u := by
          rw [← List.singleton_append, stripMarks_append,
            stripMarks_signs (List.forall_mem_singleton.2 he), List.singleton_append]
        unfold bareOperand
        rw [attachSign_of_signs hc hd, kept (isSign_combineSigns c d), kept hc, kept hd,
          reduceSigns_cons, reduceSigns_cons, reduceSigns_cons, attachSign_attachSign hc hd]
      · have apart : (isSign c && isSign d) = false := by simpa using signs
        simp only [attachSign, apart, Bool.false_eq_true, if_false]
  induction t with
  | nil => rfl
  | cons c t ih =>
    have split (u : Text) : bareOperand (c :: u) = reduceSigns (stripMarks [c] ++ bareOperand u) := by
      unfold bareOperand
      rw [← List.singleton_append, stripMarks_append, reduceSigns_append_reduceSigns]
    rw [reduceSigns_cons, attached, split, ih, ← split]

theorem markValue_reduceSigns (t : Text) : markValue (reduceSigns t) = markValue t := by
  unfold markValue
  rw [bareOperand_reduceSigns]

theorem resolveOperand_congr (same : bareOperand t = bareOperand u) :
    resolveOperand context t = resolveOperand context u := by
  unfold resolveOperand
  rw [same]

theorem Operation.solve_congr (operator : Operator) (left : Text)
    (same : bareOperand t = bareOperand u) :
    Operation.solve context ⟨left, operator, t⟩ = Operation.solve context ⟨left, operator, u⟩ := by
  unfold Operation.solve
  rw [resolveOperand_congr same]
  rfl

theorem bareOperand_signs_append (s o : Text) :
    bareOperand (s ++ o) = bareOperand (reduceSigns s ++ o) := by
  rw [← bareOperand_reduceSigns, ← bareOperand_reduceSigns (reduceSigns s ++ o),
    reduceSigns_reduceSigns_append]

/-- A row with a sign has the value of the row with this sign, if the row has one. -/
theorem resolveOperand_lead_row (sign : IsLead lead) (h : IsRow r)
    (bare : bareOperand t = lead ++ r) :
    Matches (fun x y => y = applyLead lead x) (resolveOperand context r)
      (resolveOperand context t) := by
  have unsigned := signedName_lead isLead_nil h
  rw [List.nil_append] at unsigned
  unfold resolveOperand
  simp only [bareOperand_row h, bare, literal?_lead sign h, signedName_lead sign h, unsigned]
  cases Numeral.literal? r with
  | some x => rfl
  | none =>
    simp only [Option.map_none]
    cases (context.bindings.get? r).bind Binding.value? with
    | none => trivial
    | some x =>
      change _ = applyLead lead (1 * x)
      rw [one_mul]
      rcases sign with rfl | rfl | rfl
      · exact one_mul x
      · exact one_mul x
      · exact neg_one_mul x

theorem IsClosing.bareOperand {closing : Text} (h : IsClosing closing t) (u : Text) :
    Reckoner.bareOperand (u ++ closing) = Reckoner.bareOperand u := by
  have marks : stripMarks closing = [] := by rcases h with rfl | ⟨rfl, _⟩ <;> rfl
  unfold Reckoner.bareOperand
  rw [stripMarks_append, marks, List.append_nil]

/-- A sign in front of an operand takes the opposite of its value, if the operand has no sign of its
own in marks. -/
theorem IsHead.resolve_lead (h : IsHead o t) (sign : IsLead lead)
    (marked : startsWith (· == openMark) o = true → lead = []) :
    Matches (fun x y => y = applyLead lead x) (resolveOperand context o)
      (resolveOperand context (lead ++ o)) := by
  cases h with
  | @intro opening r closing _ opens row closes =>
    rcases opens with rfl | ⟨_, _, rfl⟩
    · have bare : bareOperand (lead ++ r ++ closing) = lead ++ r :=
        (closes.bareOperand _).trans (bareOperand_lead_row sign row)
      rw [List.append_assoc] at bare
      rw [List.nil_append, resolveOperand_congr (closes.bareOperand _)]
      exact resolveOperand_lead_row sign row bare
    · rw [marked rfl]
      exact (matches_refl _).mono fun _ _ same => same.symm

theorem combine_congr {x x' y y' : Float}
    (same : operate operator x y = operate operator' x' y') :
    Matches (fun x y => x = y) (combine operator x y) (combine operator' x' y') := by
  unfold combine
  rw [same]
  cases operate operator' x' y' with
  | error e => trivial
  | ok z =>
    simp only [bind, Except.bind]
    split
    · trivial
    · rfl

/-- The operator that a sign of a sum and the sign behind it stand for. -/
theorem operate_combined (sign : IsLead lead) (sum : operator.rank = .sum)
    (combined : reduceSigns (operator.symbol :: lead) = [operator'.symbol]) (x y : Float) :
    operator'.rank = .sum ∧ operate operator x (applyLead lead y) = operate operator' x y := by
  have shown {operator'' : Operator} (shape : [operator''.symbol] = [operator'.symbol]) :
      operator' = operator'' := by
    have found := Operator.ofChar?_symbol operator'
    rw [← (List.cons.inj shape).1, Operator.ofChar?_symbol] at found
    exact (Option.some.inj found).symm
  have operators : operator = .add ∨ operator = .subtract := by
    cases operator <;> first | exact absurd sum (by decide) | exact .inl rfl | exact .inr rfl
  rcases operators with rfl | rfl
  · rcases sign with rfl | rfl | rfl
    · obtain rfl : operator' = .add := shown combined
      exact ⟨rfl, rfl⟩
    · obtain rfl : operator' = .add := shown combined
      exact ⟨rfl, rfl⟩
    · obtain rfl : operator' = .subtract := shown combined
      exact ⟨rfl, congrArg Except.ok (sub_eq_add_neg x y).symm⟩
  · rcases sign with rfl | rfl | rfl
    · obtain rfl : operator' = .subtract := shown combined
      exact ⟨rfl, rfl⟩
    · obtain rfl : operator' = .subtract := shown combined
      exact ⟨rfl, rfl⟩
    · obtain rfl : operator' = .add := shown combined
      exact ⟨rfl, congrArg Except.ok (sub_neg x y)⟩

theorem isLead_of_signs (signs : ∀ c ∈ s, isSign c = true) (few : s.length ≤ 1) : IsLead s := by
  rcases Nat.le_one_iff_eq_zero_or_eq_one.1 few with none | one
  · rw [List.length_eq_zero_iff.1 none]
    exact isLead_nil
  · obtain ⟨c, rfl⟩ := List.length_eq_one_iff.1 one
    exact isLead_of_isSign (signs c (.head _))

/-- The sign of a sum and the signs behind it stand for the sign of a sum. -/
theorem exists_combined (sum : operator.rank = .sum) (signs : ∀ c ∈ s, isSign c = true) :
    ∃ operator' : Operator, operator'.rank = .sum ∧
      reduceSigns (operator.symbol :: s) = [operator'.symbol] := by
  have sign := Operator.isSign_symbol_iff.2 sum
  have starts : startsWith isSign (reduceSigns (operator.symbol :: s)) = true := by
    rw [startsWith_reduceSigns]
    exact sign
  rcases isLead_reduceSigns (List.forall_mem_cons.2 ⟨sign, signs⟩) with none | plus | minus
  · rw [none] at starts
    contradiction
  · exact ⟨.add, rfl, plus⟩
  · exact ⟨.subtract, rfl, minus⟩

/-- A sum with a sign in front of its second operand is one without it. -/
theorem Operation.solve_sum
    (opposite : Matches (fun x y => y = applyLead lead x) (resolveOperand context o)
      (resolveOperand context (lead ++ o)))
    (sign : IsLead lead) (sum : operator.rank = .sum)
    (combined : reduceSigns (operator.symbol :: lead) = [operator'.symbol]) :
    Matches (fun x y => x = y) (Operation.solve context ⟨left, operator, lead ++ o⟩)
      (Operation.solve context ⟨left, operator', o⟩) := by
  -- Neither is a quotient, so only the two values matter.
  have solved {operator : Operator} (sum : operator.rank = .sum) (right : Text) :
      Operation.solve context ⟨left, operator, right⟩ =
        (resolveOperand context left).bind fun x =>
          (resolveOperand context right).bind fun y => combine operator x y := by
    have undivided (y : Float) : Operation.dividesNegatedNaN context.bindings
        ⟨left, operator, right⟩ y = false := by
      cases operator <;> first | rfl | exact absurd sum (by decide)
    unfold Operation.solve combine
    simp only [undivided, Bool.false_eq_true, if_false]
    rfl
  have values := operate_combined sign sum combined
  rw [solved sum, solved (values 0 0).1]
  refine (matches_refl _).bind ?_
  rintro x _ rfl
  refine opposite.symm.bind ?_
  rintro _ y rfl
  exact combine_congr (values x y).2

theorem foundSame_refl (found : Option (Text × Operation × Text)) :
    FoundSame context found found := by
  cases found with
  | none => trivial
  | some found => exact ⟨rfl, rfl, matches_refl _⟩

theorem FoundSame.behind {found found' : Option (Text × Operation × Text)}
    (h : FoundSame context found found') (same : reduceSigns t = reduceSigns t') :
    FoundSame context (Reckoner.behind t found) (Reckoner.behind t' found') := by
  cases found with
  | none =>
    cases found' with
    | none => trivial
    | some found' => exact absurd h id
  | some found =>
    cases found' with
    | none => exact absurd h id
    | some found' =>
      obtain ⟨before, after, value⟩ := h
      exact ⟨reduceSigns_congr same before, after, value⟩

theorem FoundSame.trans {found found' found'' : Option (Text × Operation × Text)}
    (h : FoundSame context found found') (h' : FoundSame context found' found'') :
    FoundSame context found found'' := by
  cases found' with
  | none =>
    cases found with
    | some found => exact absurd h id
    | none => exact h'
  | some found' =>
    cases found with
    | none => exact absurd h id
    | some found =>
      cases found'' with
      | none => exact absurd h' id
      | some found'' =>
        obtain ⟨before, after, value⟩ := h
        obtain ⟨before', after', value'⟩ := h'
        refine ⟨before.trans before', after.trans after', (value.trans value').mono ?_⟩
        rintro x _ ⟨_, rfl, rfl⟩
        rfl

/-- Where sums are not solved, a sign can be combined with the next one before the search. -/
theorem foundSame_attachSign (products : rank ≠ .sum) (c : Char) (t : Text) :
    FoundSame context (findOperation? rank (c :: t)) (findOperation? rank (attachSign c t)) := by
  have passed {c : Char} (sign : isSign c = true) (t : Text) : findOperation? rank (c :: t) = _ :=
    findOperation?_lead (isLead_of_isSign sign) products t
  cases t with
  | nil => exact foundSame_refl _
  | cons d t =>
    by_cases signs : isSign c = true ∧ isSign d = true
    · obtain ⟨hc, hd⟩ := signs
      rw [attachSign_of_signs hc hd, passed hc, passed hd, passed (isSign_combineSigns _ d),
        behind_behind]
      refine (foundSame_refl _).behind ?_
      exact attachSign_of_signs hc hd []
    · have apart : (isSign c && isSign d) = false := by simpa using signs
      simp only [attachSign, apart, Bool.false_eq_true, if_false]
      exact foundSame_refl _

/-- An operation begins with the operand in front of its operator. -/
theorem IsHead.found (h : IsHead o (operator.symbol :: (s ++ (r ++ t)))) (right : Signed s r t) :
    Reckoner.findOperation? operator.rank (o ++ operator.symbol :: (s ++ (r ++ t))) =
      some ([], ⟨o, operator, s ++ r⟩, t) := by
  have here := operationAt?_of_leftOperand? (h.leftOperand? operator.rank)
  rw [follow?_symbol right.rightOperand?, if_pos rfl] at here
  exact findOperation?_of_found (by simp) here

/-- A sum begins with the sign of its first operand. -/
theorem IsHead.found_sum (h : IsHead o (operator.symbol :: (s ++ (r ++ t)))) (sign : IsLead lead)
    (sum : operator.rank = .sum) (right : Signed s r t) :
    Reckoner.findOperation? .sum (lead ++ (o ++ operator.symbol :: (s ++ (r ++ t)))) =
      some ([], ⟨lead ++ o, operator, s ++ r⟩, t) := by
  have here := operationAt?_of_leftOperand? (h.leftOperand?_lead sign)
  rw [follow?_symbol right.rightOperand?, if_pos sum] at here
  exact findOperation?_of_found (by simp) here

/-- No operator of this rank comes first. -/
def Apart (rank : Rank) (t : Text) : Prop :=
  ∀ (operator : Operator) u, t = operator.symbol :: u → operator.rank ≠ rank

theorem Apart.follow? (h : Apart rank t) : Reckoner.follow? rank t = none := by
  cases t with
  | nil => rfl
  | cons c t =>
    unfold Reckoner.follow?
    cases found : Operator.ofChar? c with
    | none => simp only [found]
    | some operator =>
      obtain rfl := Operator.symbol_of_ofChar? found
      simp only [found, if_neg (h operator t rfl)]

theorem apart_symbol (other : operator.rank ≠ rank) (t : Text) : Apart rank (operator.symbol :: t) := by
  intro operator' u shape
  have found := Operator.ofChar?_symbol operator
  rw [(List.cons.inj shape).1, Operator.ofChar?_symbol] at found
  exact Option.some.inj found ▸ other

theorem Apart.reduceSigns (h : Apart rank t) (products : rank ≠ .sum) :
    Apart rank (Reckoner.reduceSigns t) := by
  intro operator u shape same
  by_cases sign : isSign operator.symbol = true
  · exact products (same.symm.trans (Operator.isSign_symbol_iff.1 sign))
  · cases t with
    | nil => contradiction
    | cons c t =>
      have starts := startsWith_reduceSigns (c :: t)
      rw [shape] at starts
      have notSign : isSign c = false := by
        rw [show isSign c = isSign operator.symbol from starts.symm]
        simpa using sign
      rw [reduceSigns_cons, attachSign_of_not_isSign notSign] at shape
      obtain ⟨rfl, _⟩ := List.cons.inj shape
      exact h operator t rfl same

theorem IsHead.apart (h : IsHead o t) : Apart rank (o ++ t) := by
  obtain ⟨rfl | ⟨_, _, rfl⟩, row, _⟩ := h
  · obtain ⟨c, s, rfl, operand⟩ := row.exists_cons
    rintro operator u shape
    have same := (List.cons.inj shape).1
    rw [same, Operator.not_isOperandChar_symbol] at operand
    contradiction
  · rintro operator u shape
    have same := (List.cons.inj shape).1
    cases operator <;> exact absurd same (by decide)

/-- Outside of sums no operand begins with an operator. -/
theorem findOperation?_operator (products : rank ≠ .sum) (operator : Operator) (t : Text) :
    findOperation? rank (operator.symbol :: t) =
      behind [operator.symbol] (findOperation? rank t) := by
  exact findOperation?_cons (Operator.not_isOperandChar_symbol operator) (operationAt?_of_none
    (leftOperand?_of_not (Operator.not_isOperandChar_symbol operator) operator.symbol_ne_openMark
      fun sum => absurd sum products))

/-- The same operation is found before and after signs are reduced. The induction is on the parts of
the segment; an operator of the rank is found with the operand in front of it. -/
theorem Parts.foundSame_products (h : Parts signs t) (products : rank ≠ .sum) :
    FoundSame context (findOperation? rank t) (findOperation? rank (Reckoner.reduceSigns t)) := by
  have passed {operator : Operator} {t : Text}
      (ih : FoundSame context (findOperation? rank t) (findOperation? rank (Reckoner.reduceSigns t))) :
      FoundSame context (findOperation? rank (operator.symbol :: t))
        (findOperation? rank (Reckoner.reduceSigns (operator.symbol :: t))) := by
    refine FoundSame.trans ?_ (foundSame_attachSign products _ _)
    rw [findOperation?_operator products, findOperation?_operator products]
    exact ih.behind rfl
  induction h with
  | nil => exact foundSame_refl _
  | sign sign _ _ ih =>
    obtain ⟨operator, _, rfl⟩ := exists_operator_of_isSign sign
    exact passed ih
  | operator _ _ ih => exact passed ih
  | @operand _ o t head _ rest ih =>
    have whole := head.reduceSigns_append []
    rw [List.nil_append, reduceSigns_nil, List.nil_append] at whole
    rw [whole]
    have missed (apart : Apart rank t) : FoundSame context (findOperation? rank (o ++ t))
        (findOperation? rank (o ++ Reckoner.reduceSigns t)) := by
      rw [head.findOperation? apart.follow?,
        head.reduced.findOperation? (apart.reduceSigns products).follow?]
      exact ih.behind rfl
    cases rest with
    | nil => exact missed nofun
    | operand head' _ _ => exact missed head'.apart
    | @operator operator t rest =>
      by_cases same : operator.rank = rank
      · subst same
        have unsigned := Operator.not_isSign_symbol products
        obtain ⟨s, o', r, rfl, _, right, _⟩ := rest.exists_signed rfl
        have reduced := head.reduced
        rw [reduceSigns_cons, attachSign_of_not_isSign unsigned, right.head.reduceSigns_append] at reduced ⊢
        rw [head.found right, reduced.found right.reduced]
        refine ⟨rfl, (reduceSigns_reduceSigns r).symm, ?_⟩
        rw [Operation.solve_congr operator o (bareOperand_signs_append s o')]
        exact matches_refl _
      · exact missed (apart_symbol same t)

/-- Where only sums are left, the first one is found before and after signs are reduced. The induction
is on the operands without an operator between them. -/
theorem Parts.foundSame_sums (h : Parts signs t) (behind : signs = none) (head : IsHead o t)
    (sign : IsLead lead) (none : ∀ rank, rank ≠ .sum → findOperation? rank (o ++ t) = none) :
    FoundSame context (findOperation? .sum (lead ++ (o ++ t)))
      (findOperation? .sum (lead ++ (o ++ Reckoner.reduceSigns t))) := by
  induction h generalizing lead o with
  | nil => exact foundSame_refl _
  | sign => contradiction
  | @operator operator t rest =>
    obtain ⟨s, o', r, rfl, _, right, few, marked⟩ := rest.exists_signed rfl
    by_cases sum : operator.rank = .sum
    · rw [Operator.signs, if_pos sum] at few marked
      have sign' : IsLead s := isLead_of_signs right.signs few
      obtain ⟨operator', sum', combined⟩ := exists_combined sum right.signs
      have reduced := head.reduced
      have whole := right.head.reduceSigns_append (operator.symbol :: s)
      rw [List.cons_append, combined] at whole
      rw [whole] at reduced ⊢
      have right' : Signed [] o' (Reckoner.reduceSigns r) :=
        ⟨List.forall_mem_nil _, right.head.reduced, Nat.zero_le 2, fun _ => Nat.zero_le 1⟩
      rw [head.found_sum sign sum right]
      have found := IsHead.found_sum (s := []) reduced sign sum' right'
      rw [List.nil_append, List.nil_append] at found
      rw [List.singleton_append, found]
      refine ⟨rfl, (reduceSigns_reduceSigns r).symm, ?_⟩
      refine Operation.solve_sum (right.head.resolve_lead sign' fun mark => ?_) sign' sum combined
      exact List.eq_nil_of_length_eq_zero (by have := marked mark; omega)
    · have found := head.found right
      rw [none _ sum] at found
      contradiction
  | @operand _ o' t head' _ rest ih =>
    have whole := head'.reduceSigns_append []
    rw [List.nil_append, reduceSigns_nil, List.nil_append] at whole
    have nothing : follow? .sum (o' ++ t) = Option.none := head'.apart.follow?
    have nothing' : follow? .sum (o' ++ Reckoner.reduceSigns t) = Option.none :=
      head'.reduced.apart.follow?
    have reduced := head.reduced
    rw [whole] at reduced ⊢
    rw [head.findOperation?_lead sign nothing (head.findOperation? nothing),
      reduced.findOperation?_lead sign nothing' (reduced.findOperation? nothing')]
    refine FoundSame.behind (ih rfl head' isLead_nil fun rank products => ?_) rfl
    have missed := none rank products
    rw [head.findOperation? head'.apart.follow?] at missed
    exact Option.map_eq_none_iff.1 missed

/-- A rank leaves the same of both texts, or it leaves them as they are. -/
theorem FoundSame.solveRank
    (h : FoundSame context (findOperation? rank t) (findOperation? rank t')) :
    Matches (fun u u' => u = u' ∨ (u = t ∧ u' = t' ∧ findOperation? rank t = none))
      (Reckoner.solveRank context rank t).outcome (Reckoner.solveRank context rank t').outcome := by
  cases found : findOperation? rank t with
  | none =>
    cases found' : findOperation? rank t' with
    | none =>
      rw [solveRank_of_none found, solveRank_of_none found']
      exact .inr ⟨rfl, rfl, rfl⟩
    | some _ =>
      rw [found, found'] at h
      exact absurd h id
  | some place =>
    cases found' : findOperation? rank t' with
    | none =>
      rw [found, found'] at h
      exact absurd h id
    | some place' =>
      rw [found, found'] at h
      obtain ⟨before, after, value⟩ := h
      rw [solveRank_of_some found, solveRank_of_some found']
      refine value.bind ?_
      rintro x _ rfl
      have value : reduceSigns (plain x) = reduceSigns (plain x) := rfl
      rw [reduceSigns_congr (reduceSigns_congr before value) after]
      exact (matches_refl _).mono fun _ _ => .inl

/-- Signs can be reduced before the operations of a segment are solved, unless there are two of them in
front of its first operand. -/
theorem Parts.solve_reduced (h : Parts (some 0) t) (single : ¬ BeginsSigned t) :
    Matches (fun u u' => markValue u = markValue u') (Reckoner.solveOperations context t).outcome
      (Reckoner.solveOperations context (Reckoner.reduceSigns t)).outcome := by
  have same (u u' : Text) (same : u = u') : markValue u = markValue u' := by rw [same]
  rw [solveOperations_outcome, solveOperations_outcome]
  refine (h.foundSame_products (by decide)).solveRank.bind ?_
  rintro u u' (rfl | ⟨rfl, rfl, noPower⟩)
  · exact (matches_refl _).mono same
  refine (h.foundSame_products (by decide)).solveRank.bind ?_
  rintro u u' (rfl | ⟨rfl, rfl, noProduct⟩)
  · exact (matches_refl _).mono same
  obtain ⟨lead, o, r, rfl, rest, right, _⟩ := h.exists_signed rfl
  have sign : IsLead lead := by
    refine isLead_of_signs right.signs (Nat.le_of_not_lt fun many => single ?_)
    obtain ⟨c, rest, rfl⟩ := List.exists_cons_of_length_pos (Nat.zero_lt_of_lt many)
    obtain ⟨d, rest, rfl⟩ := List.exists_cons_of_length_pos (Nat.lt_of_succ_lt_succ many)
    exact ⟨c, d, _, rfl, right.signs c (.head _), right.signs d (.tail _ (.head _))⟩
  have none (rank : Rank) (products : rank ≠ .sum) : findOperation? rank (o ++ r) = none := by
    have missed : findOperation? rank (lead ++ (o ++ r)) = Option.none := by
      cases rank with
      | power => exact noPower
      | product => exact noProduct
      | sum => contradiction
    rw [findOperation?_lead sign products] at missed
    exact Option.map_eq_none_iff.1 missed
  have sums : FoundSame context _ _ := rest.foundSame_sums rfl right.head sign none
  rw [right.head.reduceSigns_append, sign.reduced]
  refine sums.solveRank.mono ?_
  rintro u u' (rfl | ⟨rfl, rfl, _⟩)
  · rfl
  · have whole := right.head.reduceSigns_append lead
    rw [sign.reduced] at whole
    rw [← whole, markValue_reduceSigns]

end Reckoner
