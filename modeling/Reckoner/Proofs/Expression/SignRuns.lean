import Reckoner.Proofs.Expression.Signs
import Reckoner.Proofs.Text.Cursor
import Mathlib.Data.List.Chain

set_option autoImplicit false

namespace Reckoner

variable {t u run : Text} {c d : Char}

def runSign (run : Text) : Char := if run.count '-' % 2 = 1 then '-' else '+'

/-- The second text is the first one with a single sign in place of each of its runs of signs. -/
inductive SignsReduced : Text → Text → Prop
  | nil : SignsReduced [] []
  | other {c : Char} {t u : Text} (notSign : isSign c = false) (rest : SignsReduced t u) :
    SignsReduced (c :: t) (c :: u)
  | run {run t u : Text} (nonempty : run ≠ []) (signs : ∀ c ∈ run, isSign c = true)
    (longest : startsWith isSign t = false) (rest : SignsReduced t u) :
    SignsReduced (run ++ t) (runSign run :: u)

theorem isSign_runSign (run : Text) : isSign (runSign run) = true := by
  unfold runSign
  split <;> rfl

theorem runSign_singleton (sign : isSign c = true) : runSign [c] = c := by
  rcases isSign_iff.1 sign with rfl | rfl <;> rfl

/-- A further sign in front changes the parity if it is a minus. -/
theorem runSign_cons (sign : isSign c = true) (run : Text) :
    runSign (c :: run) = combineSigns c (runSign run) := by
  unfold runSign combineSigns
  rcases isSign_iff.1 sign with rfl | rfl
  · have same : ('+' :: run).count '-' = run.count '-' := List.count_cons_of_ne (by decide)
    rw [same]
    split <;> rfl
  · rw [List.count_cons_self]
    by_cases odd : run.count '-' % 2 = 1
    · rw [if_pos odd, if_neg (by omega)]
      rfl
    · rw [if_neg odd, if_pos (by omega)]
      rfl

/-- A whole run is reduced to its sign. The induction is on the run, from its end. -/
theorem reduceSigns_run (nonempty : run ≠ []) (signs : ∀ c ∈ run, isSign c = true)
    (longest : startsWith isSign t = false) :
    reduceSigns (run ++ t) = runSign run :: reduceSigns t := by
  induction run with
  | nil => contradiction
  | cons c run ih =>
    obtain ⟨first, rest⟩ := List.forall_mem_cons.1 signs
    rw [List.cons_append, reduceSigns_cons]
    by_cases single : run = []
    · have unsigned : startsWith isSign (reduceSigns t) = false := by
        rw [startsWith_reduceSigns, longest]
      rw [single, List.nil_append, attachSign_of_unsigned unsigned, runSign_singleton first]
    · rw [ih single rest, attachSign_of_signs first (isSign_runSign run), runSign_cons first]

/-- The reduced text is the only one with a single sign for each run. -/
theorem SignsReduced.eq_reduceSigns (h : SignsReduced t u) : u = reduceSigns t := by
  induction h with
  | nil => rfl
  | other notSign _ ih => rw [reduceSigns_cons, attachSign_of_not_isSign notSign, ih]
  | run nonempty signs longest _ ih => rw [reduceSigns_run nonempty signs longest, ih]

theorem signsReduced_reduceSigns (t : Text) : SignsReduced t (reduceSigns t) := by
  induction size : t.length using Nat.strongRecOn generalizing t with
  | ind n ih =>
    subst size
    cases t with
    | nil => exact .nil
    | cons c t =>
      by_cases sign : isSign c = true
      · have split : t.takeWhile isSign ++ t.dropWhile isSign = t := List.takeWhile_append_dropWhile
        have nonempty : c :: t.takeWhile isSign ≠ [] := List.cons_ne_nil _ _
        have signs : ∀ d ∈ c :: t.takeWhile isSign, isSign d = true :=
          List.forall_mem_cons.2 ⟨sign, List.all_eq_true.1 List.all_takeWhile⟩
        have longest : startsWith isSign (t.dropWhile isSign) = false := by
          have stop := List.head?_dropWhile_not isSign t
          unfold startsWith
          cases head : (t.dropWhile isSign).head? with
          | none => rfl
          | some d =>
            rw [head] at stop
            simpa using stop
        have shorter : (t.dropWhile isSign).length < (c :: t).length :=
          Nat.lt_succ_of_le (length_dropWhile_le isSign t)
        have whole : c :: t = (c :: t.takeWhile isSign) ++ t.dropWhile isSign := by
          rw [List.cons_append, split]
        rw [whole, reduceSigns_run nonempty signs longest]
        exact .run nonempty signs longest (ih _ shorter _ rfl)
      · have notSign : isSign c = false := by simpa using sign
        rw [reduceSigns_cons, attachSign_of_not_isSign notSign]
        exact .other notSign (ih _ (Nat.lt_succ_self _) _ rfl)

/-- No sign stands beside a sign. -/
def SignsApart (t : Text) : Prop :=
  List.IsChain (fun c d => ¬ (isSign c = true ∧ isSign d = true)) t

/-- A character is attached without a second sign beside a sign. -/
theorem SignsApart.attachSign (h : SignsApart t) (c : Char) : SignsApart (attachSign c t) := by
  cases t with
  | nil => exact .singleton c
  | cons d t =>
    by_cases both : isSign c = true ∧ isSign d = true
    · rw [attachSign_of_signs both.1 both.2]
      unfold SignsApart at h ⊢
      rw [List.isChain_cons] at h ⊢
      refine ⟨?_, h.2⟩
      intro e head pair
      exact h.1 e head ⟨both.2, pair.2⟩
    · rw [attachSign_of_apart both]
      exact .cons_cons both h

theorem signsApart_reduceSigns (t : Text) : SignsApart (reduceSigns t) := by
  induction t with
  | nil => exact .nil
  | cons c t ih =>
    rw [reduceSigns_cons]
    exact ih.attachSign c

/-- Two signs at the cursor become one, at which it stays. -/
def signTurn (c d : Char) : Text × Char :=
  if isSign c && isSign d then ([], combineSigns c d) else ([c], d)

/-- A turn keeps what the text from the cursor on is reduced to. -/
theorem reduceSigns_signTurn (c d : Char) (t : Text) :
    (signTurn c d).1 ++ reduceSigns ((signTurn c d).2 :: t) = reduceSigns (c :: d :: t) := by
  rw [reduceSigns_cons c]
  unfold signTurn
  by_cases both : isSign c = true ∧ isSign d = true
  · rw [if_pos (by simpa using both), reduceSigns_cons, reduceSigns_cons,
      attachSign_attachSign both.1 both.2]
    rfl
  · rw [if_neg (by simpa using both)]
    by_cases sign : isSign c = true
    · have unsigned : startsWith isSign (reduceSigns (d :: t)) = false := by
        rw [startsWith_reduceSigns]
        simpa [startsWith, sign] using both
      rw [attachSign_of_unsigned unsigned]
      rfl
    · rw [attachSign_of_not_isSign (by simpa using sign)]
      rfl

/-- Reducing the leftmost pair of signs where it stands, and going on there, reduces all of them. -/
theorem sweep_signTurn (t : Text) : (Cursor.mk [] t).sweep signTurn = reduceSigns t :=
  Cursor.sweep_eq rfl (fun _ => rfl) reduceSigns_signTurn _

/-- Reducing the signs of a text gives its parity normal form, as the sweep over it does; the form has
no two signs in a row, and each part of a text can be brought into it first. -/
theorem reduceSigns_normalForm (t a b : Text) :
    (∀ u, SignsReduced t u ↔ u = reduceSigns t) ∧ (Cursor.mk [] t).sweep signTurn = reduceSigns t ∧
      SignsApart (reduceSigns t) ∧ reduceSigns (reduceSigns t) = reduceSigns t ∧
        reduceSigns (a ++ b) = reduceSigns (reduceSigns a ++ b) ∧
          reduceSigns (a ++ b) = reduceSigns (a ++ reduceSigns b) := by
  refine ⟨fun u => ⟨SignsReduced.eq_reduceSigns, ?_⟩, sweep_signTurn t, signsApart_reduceSigns t,
    reduceSigns_reduceSigns t, (reduceSigns_reduceSigns_append a b).symm,
    (reduceSigns_append_reduceSigns a b).symm⟩
  rintro rfl
  exact signsReduced_reduceSigns t

example : reduceSigns ['2', '-', '+', '-', '-', 'x', '+', '+'] = ['2', '-', 'x', '+'] := by decide

end Reckoner
