import Reckoner.Proofs.Evaluation.Reduced

set_option autoImplicit false

namespace Reckoner

open Double

variable {context : Context} {rank : Rank} {operator : Operator} {signs : Option Nat}
  {a lead o r t u v w done name : Text} {outer : Nat} {p : Slot} {c : Char}

theorem takeWhile_dropWhile_append {kind : Char → Bool} (stop : startsWith kind u = false) (t : Text) :
    (t ++ u).takeWhile kind = t.takeWhile kind ∧ (t ++ u).dropWhile kind = t.dropWhile kind ++ u := by
  induction t with
  | nil =>
    cases u with
    | nil => exact ⟨rfl, rfl⟩
    | cons d u =>
      have head : kind d = false := by simpa [startsWith] using stop
      simp [head]
  | cons c t ih =>
    cases inside : kind c with
    | true => simp [inside, ih]
    | false => simp [inside]

theorem startsWith_append {kind : Char → Bool} (h : startsWith kind t = false)
    (stop : startsWith kind u = false) : startsWith kind (t ++ u) = false := by
  cases t with
  | nil => exact stop
  | cons c t => exact h

theorem startsWith_symbol (operator : Operator) (t : Text) :
    startsWith Char.isAlpha (operator.symbol :: t) = false := by
  cases operator <;> rfl

/-- A marked row is no argument without its closing mark. -/
theorem argument?_unclosed (sign : IsLead lead) (row : IsRow r) (stop : Stops v) :
    argument? (openMark :: (lead ++ (r ++ v))) = none := by
  cases found : argument? (openMark :: (lead ++ (r ++ v))) with
  | none => rfl
  | some call =>
    rw [(isArgumentSize_of_argument?_mark sign row stop.1 found).2] at stop
    exact absurd stop.2 (by simp [startsWith])

namespace Slot

/-- An argument does not reach beyond an operand. -/
theorem Completes.argument?_append (h : Completes outer 1 (.ended false) t) (operator : Operator)
    (u : Text) : argument? (t ++ operator.symbol :: u) =
      (argument? t).map fun call => (call.1, call.2 ++ operator.symbol :: u) := by
  have ends : Ends (operator.symbol :: u) := .inr ⟨operator, u, rfl⟩
  cases t with
  | nil => exact ends.argument?
  | cons c t =>
    by_cases mark : c = openMark
    · subst mark
      obtain ⟨_, next, rest⟩ := completes_cons.1 h
      rw [next.of_openMark.1] at rest
      obtain ⟨lead, _, _, rfl, sign, rest, starts⟩ := rest.exists_lead
      obtain ⟨r, closing, v, closed, rfl, row, closes, _⟩ := rest.exists_row starts
      rcases closes with rfl | ⟨rfl, stop⟩
      · have marked (v : Text) : openMark :: (lead ++ (r ++ ([closeMark] ++ v))) =
            Reckoner.markValue (lead ++ r) ++ v := (markValue_append sign row v).symm
        rw [marked, List.append_assoc]
        by_cases size : IsArgumentSize r
        · rw [argument?_marked_of_size sign row size, argument?_marked_of_size sign row size]
          rfl
        · rw [argument?_marked_of_not sign row size, argument?_marked_of_not sign row size]
          rfl
      · have stop' : Stops (v ++ operator.symbol :: u) := by
          cases v with
          | nil => exact ends.stops
          | cons d v => exact stop
        have whole : openMark :: (lead ++ (r ++ ([] ++ v))) ++ operator.symbol :: u =
            openMark :: (lead ++ (r ++ (v ++ operator.symbol :: u))) := by simp
        rw [whole, argument?_unclosed sign row stop', List.nil_append, argument?_unclosed sign row stop]
        rfl
    · have stop : startsWith isArgumentChar (operator.symbol :: u) = false := by cases operator <;> rfl
      obtain ⟨taken, dropped⟩ := takeWhile_dropWhile_append stop (c :: t)
      have same : startsWith isArgumentChar (c :: t ++ operator.symbol :: u) =
          startsWith isArgumentChar (c :: t) := rfl
      rw [List.cons_append] at taken dropped same ⊢
      rw [argument?_of_unmarked mark, argument?_of_unmarked mark, taken, dropped, same]
      split <;> rfl

/-- Calls in front of an operator are solved as without what follows. -/
theorem Completes.solveCalls_append (h : Completes 1 1 p t) (operator : Operator) (done u : Text) :
    (Reckoner.solveCalls context done (t ++ operator.symbol :: u)).outcome =
      (Reckoner.solveCalls context done t).outcome.bind fun w =>
        (Reckoner.solveCalls context w (operator.symbol :: u)).outcome := by
  induction t using calls_induction generalizing p done with
  | letterless t bare =>
    rw [Reckoner.solveCalls_append bare, solveCalls_of_letterless bare]
    rfl
  | named front name t bare nonempty letters stop missed ih =>
    obtain ⟨q, _, rest⟩ := completes_append.1 h
    obtain ⟨q', run, rest⟩ := completes_append.1 rest
    obtain rfl := run.of_row ⟨nonempty, fun c member => isOperandChar_of_isAlpha (letters c member)⟩
    have missed' := rest.argument?_append operator u
    rw [missed] at missed'
    rw [List.append_assoc, List.append_assoc,
      solveCalls_of_name bare nonempty letters (startsWith_append stop (startsWith_symbol operator u)) missed',
      solveCalls_of_name bare nonempty letters stop missed]
    split
    · rfl
    · exact ih rest _
  | called front name t argument tail bare nonempty letters stop found ih ihInfinite =>
    obtain ⟨q, _, rest⟩ := completes_append.1 h
    obtain ⟨q', run, rest⟩ := completes_append.1 rest
    obtain rfl := run.of_row ⟨nonempty, fun c member => isOperandChar_of_isAlpha (letters c member)⟩
    have found' := rest.argument?_append operator u
    rw [found] at found'
    have rest := rest.of_argument found
    rw [List.append_assoc, List.append_assoc,
      solveCalls_of_call bare nonempty letters (startsWith_append stop (startsWith_symbol operator u)) found',
      solveCalls_of_call bare nonempty letters stop found]
    cases solveCall context name argument with
    | error e => rfl
    | ok x =>
      simp only [Except.bind]
      split
      · have infinity : IsRow infinityName := ⟨by decide, by unfold Solid; decide⟩
        have again := ihInfinite (completes_append.2 ⟨_, run_row infinity p, rest⟩)
          (done ++ front ++ signText (isNegative x))
        rw [List.append_assoc infinityName] at again
        exact again
      · exact ih rest _

end Slot

/-- The search in a text with an operator behind it goes on behind the operator where the text has no
operation of the rank, and finds the one in the text otherwise. -/
def SearchedFirst (rank : Rank) (operator : Operator) (u t : Text) : Prop :=
  (findOperation? rank t = none ∧ findOperation? rank (t ++ operator.symbol :: u) =
      behind (t ++ [operator.symbol]) (findOperation? rank u)) ∨
    ∃ before operation after, findOperation? rank t = some (before, operation, after) ∧
      findOperation? rank (t ++ operator.symbol :: u) =
        some (before, operation, after ++ operator.symbol :: u)

/-- What the search passes over can be put in front. -/
theorem SearchedFirst.behind {s : Text} (h : SearchedFirst rank operator u t)
    (front : findOperation? rank (s ++ t) = Reckoner.behind s (findOperation? rank t))
    (whole : findOperation? rank (s ++ (t ++ operator.symbol :: u)) =
      Reckoner.behind s (findOperation? rank (t ++ operator.symbol :: u))) :
    SearchedFirst rank operator u (s ++ t) := by
  unfold SearchedFirst
  rw [List.append_assoc, front, whole]
  rcases h with ⟨none, found⟩ | ⟨before, operation, after, found, found'⟩
  · rw [none, found, behind_behind, List.append_assoc]
    exact .inl ⟨rfl, rfl⟩
  · rw [found, found']
    exact .inr ⟨s ++ before, operation, after, rfl, rfl⟩

/-- An operator of another rank keeps apart what stands in front of it. The induction is on the parts
of the segment in front. -/
theorem Parts.findOperation?_append (h : Parts signs a) (products : rank ≠ .sum)
    (other : operator.rank ≠ rank) (u : Text) : SearchedFirst rank operator u a := by
  induction h with
  | nil => exact .inl ⟨by rw [findOperation?], findOperation?_operator products operator u⟩
  | sign sign _ _ ih =>
    obtain ⟨operator', _, rfl⟩ := exists_operator_of_isSign sign
    exact ih.behind (s := [operator'.symbol]) (findOperation?_operator products _ _)
      (findOperation?_operator products _ _)
  | operator operator' _ ih =>
    exact ih.behind (s := [operator'.symbol]) (findOperation?_operator products _ _)
      (findOperation?_operator products _ _)
  | @operand _ o t head _ rest ih =>
    have ends : ∀ {t : Text}, t = [] → Stops (operator.symbol :: u) := fun _ => stops_symbol operator u
    have missed (apart : Apart rank (t ++ operator.symbol :: u)) (apart' : Apart rank t) :=
      ih.behind (head.findOperation? apart'.follow?) ((head.append ends).findOperation? apart.follow?)
    cases rest with
    | nil => exact missed (apart_symbol other u) fun _ _ shape => absurd shape.symm (List.cons_ne_nil _ _)
    | @operand _ o' t head' _ _ =>
      refine missed ?_ head'.apart
      rw [List.append_assoc]
      exact (head'.append ends).apart
    | @operator operator' t rest =>
      by_cases same : operator'.rank = rank
      · subst same
        obtain ⟨s, o', r, rfl, _, right, _⟩ := rest.exists_signed rfl
        have head' := head.append ends
        unfold SearchedFirst
        rw [List.cons_append, List.append_assoc, List.append_assoc] at head'
        rw [List.append_assoc, List.cons_append, List.append_assoc, List.append_assoc, head.found right,
          head'.found (right.append ends)]
        exact .inr ⟨_, _, _, rfl, rfl⟩
      · exact missed (apart_symbol same _) (apart_symbol same t)

/-- Where no operation of the rank stands in front of the operator, the search goes on behind the sign
that may follow it. -/
theorem Parts.findOperation?_missed (h : Parts signs a) (products : rank ≠ .sum)
    (other : operator.rank ≠ rank) (sign : IsLead lead) (missed : findOperation? rank a = none)
    (u : Text) : findOperation? rank (a ++ operator.symbol :: lead ++ u) =
      behind (a ++ operator.symbol :: lead) (findOperation? rank u) := by
  rw [List.append_assoc, List.cons_append]
  rcases h.findOperation?_append products other (lead ++ u) with ⟨_, goes⟩ | ⟨_, _, _, found, _⟩
  · rw [goes, findOperation?_lead sign products, behind_behind, List.append_assoc]
    rfl
  · rw [missed] at found
    contradiction

/-- What is found in front of the operator is found whatever stands behind it. -/
theorem Parts.findOperation?_found {before after : Text} {operation : Operation}
    (h : Parts signs a) (products : rank ≠ .sum) (other : operator.rank ≠ rank)
    (found : findOperation? rank a = some (before, operation, after)) (u : Text) :
    findOperation? rank (a ++ operator.symbol :: lead ++ u) =
      some (before, operation, after ++ operator.symbol :: (lead ++ u)) := by
  rw [List.append_assoc, List.cons_append]
  rcases h.findOperation?_append products other (lead ++ u) with ⟨missed, _⟩ | ⟨_, _, _, here, whole⟩
  · rw [found] at missed
    contradiction
  · rw [found] at here
    cases here
    exact whole

end Reckoner
