import Reckoner.Text.Character
import Mathlib.Tactic.Common

set_option autoImplicit false

namespace Reckoner

structure Cursor where
  passed : Text
  ahead : Text

namespace Cursor

variable {turn : Char → Char → Text × Char} {f : Text → Text} {s s' : Cursor}

/-- One step. The turn says what two characters become: what is passed of them, and the character at
which the cursor stands then. The last character ends the sweep. -/
def step? (turn : Char → Char → Text × Char) (s : Cursor) : Option Cursor :=
  match s.ahead with
  | c :: d :: rest => some ⟨s.passed ++ (turn c d).1, (turn c d).2 :: rest⟩
  | _ => none

/-- All that a step does. -/
theorem step?_eq_some (step : s.step? turn = some s') :
    ∃ c d rest, s.ahead = c :: d :: rest ∧
      s' = ⟨s.passed ++ (turn c d).1, (turn c d).2 :: rest⟩ := by
  unfold step? at step
  split at step
  next c d rest shape => exact ⟨c, d, rest, shape, (Option.some.inj step).symm⟩
  next => cases step

/-- A step is missing at the end only. -/
theorem ahead_of_step?_eq_none (stop : s.step? turn = none) :
    s.ahead = [] ∨ ∃ c, s.ahead = [c] := by
  unfold step? at stop
  split at stop
  next => cases stop
  next short =>
    match shape : s.ahead with
    | [] => exact .inl rfl
    | [c] => exact .inr ⟨c, rfl⟩
    | c :: d :: rest => exact absurd shape (short c d rest)

/-- Every step takes a character from what is ahead, also where the cursor stays. -/
theorem length_ahead (step : s.step? turn = some s') : s'.ahead.length + 1 = s.ahead.length := by
  obtain ⟨c, d, rest, shape, rfl⟩ := step?_eq_some step
  rw [shape]
  rfl

/-- The text that the sweep leaves. -/
def sweep (turn : Char → Char → Text × Char) (s : Cursor) : Text :=
  match _step : s.step? turn with
  | some s' => s'.sweep turn
  | none => s.passed ++ s.ahead
termination_by s.ahead.length
decreasing_by
  have shorter := length_ahead _step
  omega

/-- What a step keeps: what has been passed, and the value of the function ahead. -/
theorem step?_keeps (turns : ∀ c d r, (turn c d).1 ++ f ((turn c d).2 :: r) = f (c :: d :: r))
    (step : s.step? turn = some s') : s'.passed ++ f s'.ahead = s.passed ++ f s.ahead := by
  obtain ⟨c, d, rest, shape, rfl⟩ := step?_eq_some step
  rw [shape, ← turns c d rest, List.append_assoc]

/-- A sweep computes the function that its steps keep. The induction is on what is ahead. -/
theorem sweep_eq (empty : f [] = []) (single : ∀ c, f [c] = [c])
    (turns : ∀ c d r, (turn c d).1 ++ f ((turn c d).2 :: r) = f (c :: d :: r)) (s : Cursor) :
    s.sweep turn = s.passed ++ f s.ahead := by
  induction size : s.ahead.length using Nat.strongRecOn generalizing s with
  | ind n ih =>
    rw [sweep]
    split
    next s' step =>
      have shorter := length_ahead step
      rw [ih _ (by omega) s' rfl, step?_keeps turns step]
    next stop =>
      rcases ahead_of_step?_eq_none stop with none | ⟨c, last⟩
      · rw [none, empty]
      · rw [last, single]

end Cursor

end Reckoner
