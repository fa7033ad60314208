import Reckoner.Decimal.Layout
import Reckoner.Expression.Signs

set_option autoImplicit false

namespace Reckoner

def endsInside (inside : Bool) (t : Text) : Bool := t.foldl (fun _ c => isOperandChar c) inside

/-- The number of rows of operand characters that begin in a text; `inside` tells whether such a
character stands right before it. -/
def operandRuns (inside : Bool) : Text → Nat
  | [] => 0
  | c :: r =>
    if isOperandChar c then (if inside then 0 else 1) + operandRuns true r
    else operandRuns false r

/-- No operand character. -/
def Bare (t : Text) : Prop := ∀ c ∈ t, isOperandChar c = false

/-- Operand characters only. -/
def Solid (t : Text) : Prop := ∀ c ∈ t, isOperandChar c = true

theorem Bare.append {t u : Text} (ht : Bare t) (hu : Bare u) : Bare (t ++ u) := fun c hc =>
  (List.mem_append.1 hc).elim (ht c) (hu c)

theorem Solid.append {t u : Text} (ht : Solid t) (hu : Solid u) : Solid (t ++ u) := fun c hc =>
  (List.mem_append.1 hc).elim (ht c) (hu c)

theorem bare_nil : Bare [] := by simp [Bare]

theorem not_isOperandChar_of_isSign {c : Char} (h : isSign c = true) :
    isOperandChar c = false := by
  simp only [isSign, Bool.or_eq_true, beq_iff_eq] at h
  rcases h with rfl | rfl <;> decide

theorem isSign_of_isOperandChar {c : Char} (h : isOperandChar c = true) : isSign c = false := by
  cases hs : isSign c with
  | false => rfl
  | true => rw [not_isOperandChar_of_isSign hs] at h; contradiction

theorem isOperandChar_of_isDigit {c : Char} (h : c.isDigit = true) : isOperandChar c = true := by
  simp [isOperandChar, h]

theorem endsInside_of_bare {t : Text} (h : Bare t) (nonempty : t ≠ []) (inside : Bool) :
    endsInside inside t = false := by
  induction t generalizing inside with
  | nil => contradiction
  | cons c r ih =>
    cases r with
    | nil => exact h c (.head _)
    | cons d r => exact ih (fun e he => h e (.tail _ he)) (by simp) (isOperandChar c)

theorem endsInside_of_solid {t : Text} (h : Solid t) (nonempty : t ≠ []) (inside : Bool) :
    endsInside inside t = true := by
  induction t generalizing inside with
  | nil => contradiction
  | cons c r ih =>
    cases r with
    | nil => exact h c (.head _)
    | cons d r => exact ih (fun e he => h e (.tail _ he)) (by simp) (isOperandChar c)

theorem endsInside_append (inside : Bool) (t u : Text) :
    endsInside inside (t ++ u) = endsInside (endsInside inside t) u := List.foldl_append

theorem endsInside_eq_of_ne_nil {t : Text} (nonempty : t ≠ []) (inside other : Bool) :
    endsInside inside t = endsInside other t := by
  cases t with
  | nil => contradiction
  | cons c r => rfl

theorem operandRuns_append (inside : Bool) (t u : Text) :
    operandRuns inside (t ++ u) = operandRuns inside t + operandRuns (endsInside inside t) u := by
  induction t generalizing inside with
  | nil => simp [operandRuns, endsInside]
  | cons c r ih =>
    have step : endsInside inside (c :: r) = endsInside (isOperandChar c) r := rfl
    by_cases h : isOperandChar c <;> simp [operandRuns, step, h, ih, Nat.add_assoc]

theorem operandRuns_le (inside : Bool) (t : Text) :
    operandRuns inside t ≤ operandRuns false t := by
  cases t with
  | nil => exact Nat.le_refl 0
  | cons c r => by_cases h : isOperandChar c <;> cases inside <;> simp [operandRuns, h]

theorem operandRuns_cons_bare {c : Char} (h : isOperandChar c = false) (inside : Bool) (t : Text) :
    operandRuns inside (c :: t) = operandRuns false t := by
  simp [operandRuns, h]

theorem operandRuns_of_stop {t : Text} (h : startsWith isOperandChar t = false) (inside : Bool) :
    operandRuns inside t = operandRuns false t := by
  cases t with
  | nil => rfl
  | cons c r =>
    have hc : isOperandChar c = false := by simpa [startsWith] using h
    simp [operandRuns, hc]

theorem operandRuns_of_bare {t : Text} (h : Bare t) (inside : Bool) :
    operandRuns inside t = 0 := by
  induction t generalizing inside with
  | nil => rfl
  | cons c r ih =>
    rw [operandRuns, h c (.head _)]
    exact ih (fun d hd => h d (.tail _ hd)) false

theorem operandRuns_of_solid {t : Text} (h : Solid t) (inside : Bool) :
    operandRuns inside t = if inside || t.isEmpty then 0 else 1 := by
  have deep (u : Text) (hu : Solid u) : operandRuns true u = 0 := by
    induction u with
    | nil => rfl
    | cons c r ih =>
      rw [operandRuns, hu c (.head _)]
      simpa using ih fun d hd => hu d (.tail _ hd)
  cases t with
  | nil => simp [operandRuns]
  | cons c r =>
    rw [operandRuns, h c (.head _), deep r fun d hd => h d (.tail _ hd)]
    cases inside <;> rfl

theorem operandRuns_attachSign (c : Char) (t : Text) (inside : Bool) :
    operandRuns inside (attachSign c t) = operandRuns inside (c :: t) := by
  cases t with
  | nil => rfl
  | cons d r =>
    simp only [attachSign]
    split
    next h =>
      obtain ⟨hc, hd⟩ := Bool.and_eq_true_iff.1 h
      have combined := not_isOperandChar_of_isSign (isSign_combineSigns c d)
      rw [operandRuns_cons_bare combined, operandRuns_cons_bare (not_isOperandChar_of_isSign hc),
        operandRuns_cons_bare (not_isOperandChar_of_isSign hd)]
    next => rfl

theorem operandRuns_reduceSigns (t : Text) (inside : Bool) :
    operandRuns inside (reduceSigns t) = operandRuns inside t := by
  induction t generalizing inside with
  | nil => rfl
  | cons c r ih => simp [reduceSigns_cons, operandRuns_attachSign, operandRuns, ih]

theorem solid_positional (d : Decimal) : Solid d.positional := by
  have digits : Solid d.digits := fun c hc =>
    isOperandChar_of_isDigit (Nat.isDigit_of_mem_toDigits (by decide) (by decide) hc)
  have zeros (n : Nat) : Solid (List.replicate n '0') := fun c hc => by
    rw [List.eq_of_mem_replicate hc]; decide
  simp only [Decimal.positional]
  split
  · exact digits.append (zeros _)
  · intro c hc
    have padded (n : Nat) := (zeros n).append (digits.append (zeros d.exponent.toNat))
    rcases List.mem_append.1 hc with h | h
    · exact padded _ c (List.mem_of_mem_take h)
    · rcases List.mem_cons.1 h with rfl | h
      · decide
      · exact padded _ c (List.mem_of_mem_drop h)

/-- A number as expressions write it is one row, behind at most a sign. -/
theorem plain_eq_append (x : Float) :
    ∃ sign size, Double.plain x = sign ++ size ∧ Bare sign ∧ Solid size := by
  have bare (negative : Bool) : Bare (Double.signText negative) := by
    cases negative
    · exact bare_nil
    · simp [Double.signText, Bare]; decide
  unfold Double.plain
  split
  · exact ⟨[], _, rfl, bare_nil, by simp [Solid]; decide⟩
  · split
    · exact ⟨[], _, rfl, bare_nil, by simp [Solid]; decide⟩
    · refine ⟨_, _, rfl, bare _, ?_⟩
      split
      · simp [Solid, Double.infinityName]; decide
      · exact solid_positional _

end Reckoner
