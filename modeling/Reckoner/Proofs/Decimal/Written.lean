import Mathlib.Algebra.Field.Rat
import Mathlib.Tactic.Ring
import Reckoner.Proofs.Text.Numeral

set_option autoImplicit false

namespace Reckoner

open Double

variable {c : Char} {t : Text} {bits n : Nat} {d : Decimal} {x : Float}

def Decimal.value (d : Decimal) : ℚ := d.coefficient * (10 : ℚ) ^ d.exponent

/-- The rational number that a numeral denotes, which is not rounded to a double. -/
def Numeral.rational? (t : Text) : Option ℚ :=
  (Numeral.decimal? (Numeral.splitSign t).2).map fun d =>
    if (Numeral.splitSign t).1 then -d.value else d.value

namespace Decimal

open Numeral

theorem value_written (d : Decimal) : d.written.value = d.value := by
  unfold written
  split
  next whole =>
    have power : (10 : ℚ) ^ d.exponent = 10 ^ d.exponent.toNat := by
      rw [← zpow_natCast, Int.toNat_of_nonneg whole]
    unfold value
    rw [power, zpow_zero, mul_one, Nat.cast_mul, Nat.cast_pow, Nat.cast_ofNat]
  next => rfl

/-- A place more with a zero in it changes nothing. -/
theorem value_shifted (coefficient : Nat) (exponent : Int) :
    value ⟨10 * coefficient, exponent - 1⟩ = value ⟨coefficient, exponent⟩ := by
  unfold value
  rw [Nat.cast_mul, Nat.cast_ofNat, zpow_sub_one₀ (by decide)]
  ring

theorem decimal?_positional (d : Decimal) : decimal? d.positional = some d.written := by
  unfold decimal?
  rw [d.fixed?_positional]

/-- A whole number with a point and a zero behind it. -/
theorem decimal?_point (whole : 0 ≤ d.exponent) :
    ∃ e, decimal? (d.positional ++ ['.', '0']) = some e ∧ e.value = d.value := by
  have place : ∀ c ∈ ['0'], c.isDigit = true := by decide
  refine ⟨⟨10 * (d.coefficient * 10 ^ d.exponent.toNat), 0 - 1⟩, ?_, ?_⟩
  · unfold decimal?
    rw [positional_of_whole whole, fixed?_of_rows (fun _ h => isDigit_of_mem_whole h)
      (by simp [digits_ne_nil]) place, Nat.ofDigitChars_append, ofDigitChars_whole]
    rfl
  · rw [value_shifted, ← value_written d, written, if_pos whole]

theorem splitSign_power (power : Int) (t : Text) :
    splitSign ((if power < 0 then '-' else '+') :: t) = (decide (power < 0), t) := by
  by_cases negative : power < 0
  · rw [if_pos negative, decide_eq_true negative]
    rfl
  · rw [if_neg negative, decide_eq_false negative]
    rfl

theorem isDigit_of_mem_power {size zeros : Nat} {c : Char}
    (h : c ∈ List.replicate zeros '0' ++ Nat.toDigits 10 size) : c.isDigit = true :=
  (List.mem_append.1 h).elim isDigit_of_mem_zeros
    (Nat.isDigit_of_mem_toDigits (by decide) (by decide))

theorem digitsValue_power (size zeros : Nat) :
    digitsValue (List.replicate zeros '0' ++ Nat.toDigits 10 size) = size := by
  rw [digitsValue_of_row fun _ => isDigit_of_mem_power, Nat.ofDigitChars_append,
    Nat.ofDigitChars_replicate_zero, Nat.mul_zero, Nat.ofDigitChars_ten_toDigits]

theorem signed_natAbs (power : Int) :
    (if power < 0 then -(power.natAbs : Int) else power.natAbs) = power := by
  split <;> omega

theorem power?_written (power : Int) (zeros : Nat) :
    power? ((if power < 0 then '-' else '+') ::
      (List.replicate zeros '0' ++ Nat.toDigits 10 power.natAbs)) = some (power, []) := by
  have row : ∀ c ∈ List.replicate zeros '0' ++ Nat.toDigits 10 power.natAbs, c.isDigit = true :=
    fun _ => isDigit_of_mem_power
  have nonempty : (List.replicate zeros '0' ++ Nat.toDigits 10 power.natAbs).isEmpty = false := by
    simp [Nat.toDigits_ne_nil]
  have whole := digits_append_of_row (r := []) row rfl
  have rest := afterDigits_append_of_row (r := []) row rfl
  rw [List.append_nil] at whole rest
  unfold power?
  rw [splitSign_power]
  simp only [whole, rest, digitsValue_power, nonempty, Bool.false_eq_true, if_false,
    decide_eq_true_eq, signed_natAbs]

/-- A decimal and a power of ten behind it. -/
theorem decimal?_mark {d : Decimal} {r : Text} {power : Int}
    (front : fixed? t = some (d, 'e' :: r)) (back : power? r = some (power, [])) :
    decimal? t = some ⟨d.coefficient, d.exponent + power⟩ := by
  unfold decimal?
  rw [front]
  simp only [true_or, if_true, back]

/-- The form with an exponent has all digits of the decimal. -/
theorem decimal?_scientific (d : Decimal) : decimal? d.scientific = some d := by
  have stop (r : Text) : startsWith isDecimalDigit ('e' :: r) = false := by
    change isDecimalDigit 'e' = false
    decide
  have value : Nat.ofDigitChars 10 d.digits 0 = d.coefficient := Nat.ofDigitChars_ten_toDigits
  have row : ∀ c ∈ d.digits, c.isDigit = true := fun _ member => isDigit_of_mem_digits member
  unfold scientific
  cases shape : d.digits with
  | nil => exact absurd shape d.digits_ne_nil
  | cons c r =>
    rw [shape] at value row
    obtain ⟨first, later⟩ := List.forall_mem_cons.1 row
    cases r with
    | nil =>
      have front (r : Text) : fixed? (c :: 'e' :: r) = some (⟨Nat.ofDigitChars 10 [c] 0, 0⟩, 'e' :: r) :=
        fixed?_row_append row nofun (stop r) nofun
      rw [value] at front
      have same : 0 + (d.exponent + (([c].length : Int) - 1)) = d.exponent := by
        rw [List.length_singleton]
        omega
      simp only [List.cons_append, List.nil_append]
      rw [decimal?_mark (front _) (power?_written _ _), same]
    | cons e s =>
      have front (r : Text) : fixed? (c :: '.' :: (e :: s ++ 'e' :: r)) =
          some (⟨Nat.ofDigitChars 10 (c :: e :: s) 0, -((e :: s).length : Int)⟩, 'e' :: r) :=
        fixed?_rows_append (List.forall_mem_singleton.2 first) nofun later (stop r)
      rw [value] at front
      have same : -((e :: s).length : Int) + (d.exponent + (((c :: e :: s).length : Int) - 1)) =
          d.exponent := by
        simp only [List.length_cons]
        omega
      simp only [List.append_assoc, List.cons_append, List.nil_append] at front ⊢
      rw [decimal?_mark (front _) (power?_written _ _), same]

/-- The digit at the start of the form with an exponent. -/
theorem scientific_startsWith (d : Decimal) : startsWith Char.isDigit d.scientific = true := by
  have row : ∀ c ∈ d.digits, c.isDigit = true := fun _ member => isDigit_of_mem_digits member
  unfold scientific
  cases shape : d.digits with
  | nil => exact absurd shape d.digits_ne_nil
  | cons c r =>
    rw [shape] at row
    cases r <;> exact row c (.head _)

end Decimal

namespace Double

open Numeral

theorem shownMagnitude_startsWith (bits : Nat) :
    startsWith Char.isDigit (shownMagnitude bits) = true := by
  have front (t : Text) : startsWith Char.isDigit ((Decimal.shortest bits).positional ++ t) = true := by
    have digit := (Decimal.shortest bits).positional_startsWith
    cases shape : (Decimal.shortest bits).positional with
    | nil =>
      rw [shape] at digit
      contradiction
    | cons c r =>
      rw [shape] at digit
      exact digit
  unfold shownMagnitude
  dsimp only
  split
  · exact front _
  · exact (Decimal.shortest bits).scientific_startsWith

/-- Records show all digits of the shortest decimal. -/
theorem decimal?_shownMagnitude (bits : Nat) :
    ∃ e, decimal? (shownMagnitude bits) = some e ∧ e.value = (Decimal.shortest bits).value := by
  unfold shownMagnitude
  dsimp only
  split
  · split
    next whole => exact Decimal.decimal?_point whole
    next =>
      rw [List.append_nil]
      exact ⟨_, Decimal.decimal?_positional _, Decimal.value_written _⟩
  · exact ⟨_, Decimal.decimal?_scientific _, rfl⟩

theorem rational?_signText {d : Decimal} (negative : Bool) (digit : startsWith Char.isDigit t = true)
    (read : decimal? t = some d) :
    rational? (signText negative ++ t) = some (if negative then -d.value else d.value) := by
  have shape : splitSign (signText negative ++ t) = (negative, t) := by
    cases negative with
    | true => rfl
    | false => exact splitSign_of_no_sign (startsWith_isSign_of_isDigit digit)
  unfold rational?
  rw [shape]
  simp only [read, Option.map_some]

/-- Both forms of a finite number denote the same rational number. -/
theorem rational?_plain (finite : x.isFinite = true) :
    ∃ q, rational? (plain x) = some q ∧ rational? (shown x) = some q := by
  have below := isFinite_iff.1 finite
  have number : x.isNaN = false := isNaN_eq_false_iff.2 (Nat.le_of_lt below)
  have limited : ¬ x.isInf = true := fun infinite => Nat.ne_of_lt below (isInf_iff.1 infinite)
  unfold plain shown
  rw [number, if_neg Bool.false_ne_true, if_neg Bool.false_ne_true, if_neg limited, if_neg limited]
  by_cases zero : magnitude x = 0
  · rw [if_pos zero, if_pos zero]
    have nought : rational? ['0'] = some (if false then -Decimal.value ⟨0, 0⟩ else Decimal.value ⟨0, 0⟩) :=
      rational?_signText false rfl rfl
    have point : rational? (signText (isNegative x) ++ ['0', '.', '0']) = _ :=
      rational?_signText (d := ⟨0, -1⟩) (isNegative x) rfl rfl
    refine ⟨0, ?_, ?_⟩
    · rw [nought]
      simp [Decimal.value]
    · rw [point]
      simp [Decimal.value]
  · rw [if_neg zero, if_neg zero]
    obtain ⟨e, read, value⟩ := decimal?_shownMagnitude (magnitude x)
    have left := rational?_signText (isNegative x) (Decimal.positional_startsWith _)
      (Decimal.decimal?_positional (Decimal.shortest (magnitude x)))
    have right := rational?_signText (isNegative x) (shownMagnitude_startsWith _) read
    rw [value] at right
    rw [Decimal.value_written] at left
    exact ⟨_, left, right⟩

end Double

def IsWholePart (t : Text) : Prop :=
  t = ['0'] ∨ ∃ c r, t = c :: r ∧ c.isDigit = true ∧ c ≠ '0' ∧ ∀ d ∈ r, d.isDigit = true

/-- A point and places without a zero at the end, or nothing. -/
def IsPlaces (t : Text) : Prop :=
  t = [] ∨ ∃ r c, t = '.' :: (r ++ [c]) ∧ (∀ d ∈ r, d.isDigit = true) ∧ c.isDigit = true ∧ c ≠ '0'

/-- A numeral without an exponent and without any zero that could be left out. -/
def IsPlainNumeral (t : Text) : Prop :=
  ∃ sign whole places, t = sign ++ (whole ++ places) ∧ (sign = [] ∨ sign = ['-']) ∧
    IsWholePart whole ∧ IsPlaces places

theorem toDigits_head (nonzero : n ≠ 0) : ∃ c r, Nat.toDigits 10 n = c :: r ∧ c ≠ '0' := by
  induction n using Nat.strongRecOn with
  | ind n ih =>
    rw [Nat.toDigits_eq_if (by decide)]
    by_cases small : n < 10
    · rw [if_pos small]
      exact ⟨_, [], rfl, fun zero => nonzero (Nat.digitChar_eq_zero.1 zero)⟩
    · obtain ⟨c, r, digits, first⟩ := ih (n / 10) (by omega) (by omega)
      rw [if_neg small, digits]
      exact ⟨c, _, rfl, first⟩

theorem toDigits_last (n : Nat) : ∃ r, Nat.toDigits 10 n = r ++ [Nat.digitChar (n % 10)] := by
  rw [Nat.toDigits_eq_if (by decide)]
  split
  next small =>
    rw [Nat.mod_eq_of_lt small]
    exact ⟨[], rfl⟩
  next => exact ⟨_, rfl⟩

namespace Decimal

theorem strip_last (nonzero : d.coefficient ≠ 0) : d.strip.coefficient % 10 ≠ 0 := by
  fun_induction strip d with
  | case1 d trailing ih =>
    apply ih
    show d.coefficient / 10 ≠ 0
    omega
  | case2 d kept => exact fun last => kept ⟨nonzero, last⟩

/-- The shortest decimal has no zero at the end of its coefficient. -/
theorem shortest_last (nonzero : bits ≠ 0) (finite : bits < infinityBits) :
    (shortest bits).coefficient % 10 ≠ 0 := by
  obtain ⟨e, same⟩ : ∃ e, shortest bits = strip e := ⟨_, rfl⟩
  have read := bits_shortest finite
  rw [same, bits_strip] at read
  rw [same]
  apply strip_last
  intro none
  rw [Decimal.bits, if_pos none] at read
  exact nonzero read.symm

/-- In front of the point stand the first digits, or a zero where there are none. -/
theorem isWholePart_take {r : Text} (head : d.digits = c :: r) (first : c ≠ '0') :
    IsWholePart (d.padded.take (d.padded.length - (-d.exponent).toNat)) := by
  have row : ∀ e ∈ d.digits, e.isDigit = true := fun _ member => isDigit_of_mem_digits member
  have length : d.digits.length = r.length + 1 := by
    rw [head, List.length_cons]
  unfold padded
  by_cases enough : (-d.exponent).toNat < d.digits.length
  · have none : (-d.exponent).toNat + 1 - d.digits.length = 0 := by omega
    obtain ⟨m, more⟩ : ∃ m, d.digits.length - (-d.exponent).toNat = m + 1 :=
      ⟨d.digits.length - (-d.exponent).toNat - 1, by omega⟩
    rw [none, List.replicate_zero, List.nil_append, more, head, List.take_succ_cons]
    rw [head] at row
    exact .inr ⟨c, r.take m, rfl, row c (.head _), first,
      fun e member => row e (.tail _ (List.mem_of_mem_take member))⟩
  · obtain ⟨m, more⟩ : ∃ m, (-d.exponent).toNat + 1 - d.digits.length = m + 1 :=
      ⟨(-d.exponent).toNat - d.digits.length, by omega⟩
    have one : (List.replicate (m + 1) '0' ++ d.digits).length - (-d.exponent).toNat = 1 := by
      rw [List.length_append, List.length_replicate]
      omega
    rw [more, one]
    exact .inl rfl

theorem isPlainNumeral_positional (kept : d.coefficient % 10 ≠ 0) :
    ∃ whole places, d.positional = whole ++ places ∧ IsWholePart whole ∧ IsPlaces places := by
  obtain ⟨c, r, head, first⟩ := toDigits_head (n := d.coefficient) (by omega)
  obtain ⟨s, tail⟩ := toDigits_last d.coefficient
  have head : d.digits = c :: r := head
  have tail : d.digits = s ++ [Nat.digitChar (d.coefficient % 10)] := tail
  have last : Nat.digitChar (d.coefficient % 10) ≠ '0' := fun zero =>
    kept (Nat.digitChar_eq_zero.1 zero)
  have row : ∀ e ∈ d.digits, e.isDigit = true := fun _ member => isDigit_of_mem_digits member
  by_cases whole : 0 ≤ d.exponent
  · refine ⟨_, [], ?_, .inr ⟨c, r ++ List.replicate d.exponent.toNat '0', rfl, ?_, first, ?_⟩, .inl rfl⟩
    · rw [positional_of_whole whole, head, List.append_nil, List.cons_append]
    · exact row c (head ▸ .head _)
    · intro e member
      apply isDigit_of_mem_whole (d := d)
      rw [head]
      exact .tail _ member
  · refine ⟨_, _, positional_of_places (by omega), ?_, .inr ?_⟩
    · exact isWholePart_take head first
    · have padded : d.padded = List.replicate ((-d.exponent).toNat + 1 - d.digits.length) '0' ++ s ++
          [Nat.digitChar (d.coefficient % 10)] := by
        rw [Decimal.padded, List.append_assoc, ← tail]
      have inside : ∀ e ∈ d.padded, e.isDigit = true := fun _ member => isDigit_of_mem_padded member
      rw [padded] at inside ⊢
      rw [List.drop_append_of_le_length (by simp; omega)]
      exact ⟨_, _, rfl, fun e member => inside e (List.mem_append_left _ (List.mem_of_mem_drop member)),
        inside _ (by simp), last⟩

end Decimal

/-- A finite number is written without an exponent. -/
theorem isPlainNumeral_plain (finite : x.isFinite = true) : IsPlainNumeral (plain x) := by
  have below := isFinite_iff.1 finite
  have number : x.isNaN = false := isNaN_eq_false_iff.2 (Nat.le_of_lt below)
  by_cases zero : magnitude x = 0
  · rw [plain_of_zero zero]
    exact ⟨[], ['0'], [], rfl, .inl rfl, .inl rfl, .inl rfl⟩
  · have size : sizeText (magnitude x) = (Decimal.shortest (magnitude x)).positional := by
      unfold sizeText
      rw [if_neg zero, if_neg (Nat.ne_of_lt below)]
    obtain ⟨whole, places, shape, front, back⟩ :=
      Decimal.isPlainNumeral_positional (Decimal.shortest_last zero below)
    rw [plain_of_nonzero number zero, size, shape]
    refine ⟨_, whole, places, rfl, ?_, front, back⟩
    cases isNegative x with
    | true => exact .inr rfl
    | false => exact .inl rfl

end Reckoner
