import Reckoner.Text.Numeral
import Reckoner.Proofs.Decimal.Shortest
import Reckoner.Proofs.Double.Order

set_option autoImplicit false

namespace Reckoner

namespace Double

/-- A magnitude as expressions write it. -/
def sizeText (bits : Nat) : Text :=
  if bits = 0 then ['0']
  else if bits = infinityBits then infinityName
  else (Decimal.shortest bits).positional

theorem plain_of_zero {x : Float} (zero : magnitude x = 0) : plain x = sizeText 0 := by
  unfold plain sizeText
  rw [isNaN_eq_false_iff.2 (by omega)]
  simp only [zero, Bool.false_eq_true, if_false, if_true]

theorem plain_of_nonzero {x : Float} (number : x.isNaN = false) (nonzero : magnitude x ≠ 0) :
    plain x = signText (isNegative x) ++ sizeText (magnitude x) := by
  unfold plain sizeText
  simp only [number, nonzero, isInf_iff, Bool.false_eq_true, if_false]

end Double

namespace Numeral

theorem digitValue?_of_isDigit {c : Char} (digit : c.isDigit = true) :
    digitValue? c = some (c.toNat - 48) := by
  have bound : c.toNat < 128 := by
    simp only [Char.isDigit, Bool.and_eq_true, decide_eq_true_eq] at digit
    have high : c.val.toNat ≤ 57 := digit.2
    exact Nat.lt_of_le_of_lt high (by decide)
  rw [digitValue?, if_pos bound, if_pos digit]

theorem foldl_digits {t : Text} (row : ∀ c ∈ t, c.isDigit = true) (n : Nat) :
    t.foldl (fun n c => 10 * n + (digitValue? c).getD 0) n = Nat.ofDigitChars 10 t n := by
  induction t generalizing n with
  | nil => rfl
  | cons c r ih =>
    have head := row c (.head _)
    rw [List.foldl_cons, ih (fun d hd => row d (.tail _ hd)), Nat.ofDigitChars_cons,
      digitValue?_of_isDigit head]
    rfl

theorem digitsValue_of_row {t : Text} (row : ∀ c ∈ t, c.isDigit = true) :
    digitsValue t = Nat.ofDigitChars 10 t 0 :=
  foldl_digits row 0

variable {t r : Text}

theorem digits_append_of_row (row : ∀ c ∈ t, c.isDigit = true)
    (stop : startsWith isDecimalDigit r = false) : digits (t ++ r) = t := by
  unfold digits
  rw [List.takeWhile_append_of_pos fun c hc => isDecimalDigit_of_isDigit (row c hc)]
  cases r with
  | nil => simp
  | cons c r =>
    have head : isDecimalDigit c = false := by simpa [startsWith] using stop
    rw [List.takeWhile_cons_of_neg (by simp [head]), List.append_nil]

theorem afterDigits_append_of_row (row : ∀ c ∈ t, c.isDigit = true)
    (stop : startsWith isDecimalDigit r = false) : afterDigits (t ++ r) = r := by
  unfold afterDigits
  rw [List.dropWhile_append_of_pos fun c hc => isDecimalDigit_of_isDigit (row c hc)]
  cases r with
  | nil => rfl
  | cons c r =>
    have head : isDecimalDigit c = false := by simpa [startsWith] using stop
    rw [List.dropWhile_cons_of_neg (by simp [head])]

/-- A row of digits that no point follows. -/
theorem fixed?_row_append (row : ∀ c ∈ t, c.isDigit = true) (nonempty : t ≠ [])
    (stop : startsWith isDecimalDigit r = false) (whole : ∀ s, r ≠ '.' :: s) :
    fixed? (t ++ r) = some (⟨Nat.ofDigitChars 10 t 0, 0⟩, r) := by
  unfold fixed?
  rw [digits_append_of_row row stop, afterDigits_append_of_row row stop]
  split
  next s => exact absurd rfl (whole s)
  next => simp only [List.isEmpty_iff, nonempty, if_false, digitsValue_of_row row]

/-- Two rows of digits with a point between them. -/
theorem fixed?_rows_append {u : Text} (row : ∀ c ∈ t, c.isDigit = true) (nonempty : t ≠ [])
    (places : ∀ c ∈ u, c.isDigit = true) (stop : startsWith isDecimalDigit r = false) :
    fixed? (t ++ '.' :: (u ++ r)) = some (⟨Nat.ofDigitChars 10 (t ++ u) 0, -u.length⟩, r) := by
  have point : isDecimalDigit '.' = false := by decide
  have before : startsWith isDecimalDigit ('.' :: (u ++ r)) = false := point
  have all : ∀ c ∈ t ++ u, c.isDigit = true := fun c hc =>
    (List.mem_append.1 hc).elim (row c) (places c)
  unfold fixed?
  rw [digits_append_of_row row before, afterDigits_append_of_row row before]
  simp only [digits_append_of_row places stop, afterDigits_append_of_row places stop,
    digitsValue_of_row all, List.isEmpty_eq_false_iff.2 nonempty, Bool.false_and,
    Bool.false_eq_true, if_false]

theorem fixed?_of_row (row : ∀ c ∈ t, c.isDigit = true) (nonempty : t ≠ []) :
    fixed? t = some (⟨Nat.ofDigitChars 10 t 0, 0⟩, []) := by
  have whole := fixed?_row_append (r := []) row nonempty rfl nofun
  rwa [List.append_nil] at whole

theorem fixed?_of_rows {u : Text} (row : ∀ c ∈ t, c.isDigit = true) (nonempty : t ≠ [])
    (places : ∀ c ∈ u, c.isDigit = true) :
    fixed? (t ++ '.' :: u) = some (⟨Nat.ofDigitChars 10 (t ++ u) 0, -u.length⟩, []) := by
  have whole := fixed?_rows_append (r := []) row nonempty places rfl
  rwa [List.append_nil] at whole

end Numeral

namespace Decimal

open Numeral

theorem isDigit_of_mem_digits {d : Decimal} {c : Char} (h : c ∈ d.digits) : c.isDigit = true :=
  Nat.isDigit_of_mem_toDigits (by decide) (by decide) h

theorem isDigit_of_mem_zeros {n : Nat} {c : Char} (h : c ∈ List.replicate n '0') :
    c.isDigit = true := by
  rw [List.eq_of_mem_replicate h]
  decide

theorem digits_ne_nil (d : Decimal) : d.digits ≠ [] := Nat.toDigits_ne_nil

/-- A whole number is written with its zeros. -/
theorem positional_of_whole {d : Decimal} (whole : 0 ≤ d.exponent) :
    d.positional = d.digits ++ List.replicate d.exponent.toNat '0' := by
  have places : (-d.exponent).toNat = 0 := by omega
  simp only [positional, places, if_true]

/-- The digits of a number with places, with zeros in front where they are too few. -/
def padded (d : Decimal) : Text :=
  List.replicate ((-d.exponent).toNat + 1 - d.digits.length) '0' ++ d.digits

theorem length_padded (d : Decimal) : (-d.exponent).toNat < d.padded.length := by
  unfold padded
  rw [List.length_append, List.length_replicate]
  omega

theorem isDigit_of_mem_padded {d : Decimal} {c : Char} (h : c ∈ d.padded) : c.isDigit = true :=
  (List.mem_append.1 h).elim isDigit_of_mem_zeros isDigit_of_mem_digits

theorem positional_of_places {d : Decimal} (places : d.exponent < 0) :
    d.positional = d.padded.take (d.padded.length - (-d.exponent).toNat) ++
      '.' :: d.padded.drop (d.padded.length - (-d.exponent).toNat) := by
  have some : (-d.exponent).toNat ≠ 0 := by omega
  have none : d.exponent.toNat = 0 := by omega
  simp only [positional, some, none, List.replicate_zero, List.append_nil, if_false]
  rfl

theorem ofDigitChars_padded (d : Decimal) : Nat.ofDigitChars 10 d.padded 0 = d.coefficient := by
  unfold padded digits
  rw [Nat.ofDigitChars_append, Nat.ofDigitChars_replicate_zero, Nat.mul_zero,
    Nat.ofDigitChars_ten_toDigits]

theorem isDigit_of_mem_whole {d : Decimal} {c : Char}
    (h : c ∈ d.digits ++ List.replicate d.exponent.toNat '0') : c.isDigit = true :=
  (List.mem_append.1 h).elim isDigit_of_mem_digits isDigit_of_mem_zeros

theorem ofDigitChars_whole (d : Decimal) :
    Nat.ofDigitChars 10 (d.digits ++ List.replicate d.exponent.toNat '0') 0 =
      d.coefficient * 10 ^ d.exponent.toNat := by
  unfold digits
  rw [Nat.ofDigitChars_append, Nat.ofDigitChars_replicate_zero, Nat.ofDigitChars_ten_toDigits,
    Nat.mul_comm]

/-- The decimal that is read where this one is written: a whole number has its zeros in the
coefficient. -/
def written (d : Decimal) : Decimal :=
  if 0 ≤ d.exponent then ⟨d.coefficient * 10 ^ d.exponent.toNat, 0⟩ else d

theorem fixed?_positional (d : Decimal) : fixed? d.positional = some (d.written, []) := by
  unfold written
  by_cases whole : 0 ≤ d.exponent
  · rw [positional_of_whole whole, fixed?_of_row (fun _ h => isDigit_of_mem_whole h)
      (by simp [digits_ne_nil]), ofDigitChars_whole, if_pos whole]
  · have long := length_padded d
    have front : d.padded.take (d.padded.length - (-d.exponent).toNat) ≠ [] := by
      rw [← List.length_pos_iff, List.length_take]
      omega
    have back : (d.padded.drop (d.padded.length - (-d.exponent).toNat)).length =
        (-d.exponent).toNat := by
      rw [List.length_drop]
      omega
    have exponent : -(((-d.exponent).toNat : Nat) : Int) = d.exponent := by omega
    rw [positional_of_places (by omega),
      fixed?_of_rows (fun c hc => isDigit_of_mem_padded (List.mem_of_mem_take hc)) front
        (fun c hc => isDigit_of_mem_padded (List.mem_of_mem_drop hc)),
      List.take_append_drop, ofDigitChars_padded, back, exponent, if_neg whole]

/-- What `positional` writes reads as the same double. -/
theorem bits_written (d : Decimal) : d.written.bits = d.bits := by
  unfold written
  split
  next whole =>
    have places : (-d.exponent).toNat = 0 := by omega
    rw [bits_eq_nearest, bits_eq_nearest]
    simp only [ratio, places, Int.toNat_zero, Int.neg_zero, Nat.pow_zero, Nat.mul_one]
  next => rfl

theorem positional_startsWith (d : Decimal) : startsWith Char.isDigit d.positional = true := by
  have start {t u : Text} (row : ∀ c ∈ t, c.isDigit = true) (nonempty : t ≠ []) :
      startsWith Char.isDigit (t ++ u) = true := by
    cases t with
    | nil => contradiction
    | cons c r => exact row c (.head _)
  by_cases whole : 0 ≤ d.exponent
  · rw [positional_of_whole whole]
    exact start (fun c hc => isDigit_of_mem_digits hc) d.digits_ne_nil
  · have long := length_padded d
    rw [positional_of_places (by omega)]
    apply start fun c hc => isDigit_of_mem_padded (List.mem_of_mem_take hc)
    rw [← List.length_pos_iff, List.length_take]
    omega

end Decimal

namespace Numeral

open Double

theorem literal?_infinityName (negative : Bool) {t : Text}
    (shape : splitSign t = (negative, infinityName)) :
    literal? t = some (infinity negative) := by
  unfold literal?
  rw [shape]
  rfl

theorem literal?_decimal {negative : Bool} {t u : Text} {d : Decimal}
    (shape : splitSign t = (negative, u)) (read : fixed? u = some (d, [])) :
    literal? t = some (signed negative d) := by
  have name : u ≠ infinityName := by
    rintro rfl
    contradiction
  unfold literal?
  rw [shape]
  simp only [name, if_false, read]

/-- The size of a number reads as that number, behind any sign. -/
theorem literal?_sizeText {negative : Bool} {bits : Nat} {t : Text} (notNan : bits ≤ infinityBits)
    (shape : splitSign t = (negative, sizeText bits)) :
    literal? t = some (ofMagnitude negative bits) := by
  by_cases zero : bits = 0
  · subst zero
    have read : fixed? (sizeText 0) = some (⟨0, 0⟩, []) := by decide
    rw [literal?_decimal shape read]
    rfl
  · by_cases infinite : bits = infinityBits
    · subst infinite
      exact literal?_infinityName negative shape
    · have name : sizeText bits = (Decimal.shortest bits).positional := by
        unfold sizeText
        rw [if_neg zero, if_neg infinite]
      have read := (Decimal.shortest bits).fixed?_positional
      rw [literal?_decimal shape (name ▸ read), signed, Decimal.bits_written,
        Decimal.bits_shortest (by omega)]

theorem startsWith_isSign_of_isDigit {t : Text} (digit : startsWith Char.isDigit t = true) :
    startsWith isSign t = false := by
  cases t with
  | nil => contradiction
  | cons c r =>
    show isSign c = false
    rw [Bool.eq_false_iff]
    intro sign
    simp only [isSign, Bool.or_eq_true, beq_iff_eq] at sign
    rcases sign with rfl | rfl <;> exact absurd digit Bool.false_ne_true

theorem sizeText_startsWith (bits : Nat) : startsWith isSign (sizeText bits) = false := by
  unfold sizeText
  split
  · decide
  · split
    · decide
    · exact startsWith_isSign_of_isDigit (Decimal.shortest bits).positional_startsWith

theorem splitSign_of_no_sign {t : Text} (unsigned : startsWith isSign t = false) :
    splitSign t = (false, t) := by
  unfold splitSign
  split
  · contradiction
  · contradiction
  · rfl

theorem ofMagnitude_zero : ofMagnitude false 0 = 0 := by decide

end Numeral

end Reckoner
