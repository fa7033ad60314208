import Reckoner.Json.Reader
import Reckoner.Proofs.Decimal.Written
import Reckoner.Proofs.Json.Output
import Reckoner.Proofs.Text.Runs

set_option autoImplicit false

namespace Reckoner.Json

open Double Numeral

variable {t u r : Text} {c : Char} {n : Int} {d : Decimal} {e : Int} {negative : Bool} {x : Float}

def continuesNumber (c : Char) : Bool := c.isDigit || c == '.' || c == 'e' || c == 'E'

theorem startsWith_mono {p q : Char → Bool} (less : ∀ c, p c = false → q c = false)
    (stop : startsWith p t = false) : startsWith q t = false := by
  cases t with
  | nil => rfl
  | cons c r => exact less c stop

theorem not_isDigit_of_stop (stop : startsWith continuesNumber r = false) :
    startsWith Char.isDigit r = false := by
  refine startsWith_mono (fun c stop => ?_) stop
  simp only [continuesNumber, Bool.or_eq_false_iff] at stop
  exact stop.1.1.1

theorem row_append (row : ∀ c ∈ t, c.isDigit = true) (stop : startsWith Char.isDigit r = false) :
    (t ++ r).takeWhile Char.isDigit = t ∧ (t ++ r).dropWhile Char.isDigit = r := by
  refine takeWhile_append_of_stop row fun c head => ?_
  rw [startsWith, Option.mem_def.1 head] at stop
  exact stop

theorem startsWith_append {p : Char → Bool} (first : startsWith p t = true) :
    startsWith p (t ++ r) = true := by
  cases t with
  | nil => contradiction
  | cons c s => exact first

theorem startsWith_row (row : ∀ c ∈ t, c.isDigit = true) (nonempty : t ≠ []) :
    startsWith Char.isDigit t = true := by
  cases t with
  | nil => contradiction
  | cons c s => exact row c (.head _)

theorem wholeDigits?_append (whole : IsWholePart t) (stop : startsWith Char.isDigit r = false) :
    wholeDigits? (t ++ r) = some (t, r) := by
  rcases whole with rfl | ⟨c, s, rfl, digit, first, row⟩
  · rfl
  · have parts := row_append (t := c :: s) (List.forall_mem_cons.2 ⟨digit, row⟩) stop
    unfold wholeDigits?
    split
    next shape => exact absurd (List.cons.inj shape).1 first
    next =>
      have starts : startsWith Char.isDigit (c :: s ++ r) = true := digit
      rw [if_pos starts, parts.1, parts.2]

theorem readPlaces_append (row : ∀ c ∈ t, c.isDigit = true) (nonempty : t ≠ [])
    (stop : startsWith Char.isDigit r = false) : readPlaces ('.' :: (t ++ r)) = (t, r) := by
  have parts := row_append row stop
  simp only [readPlaces, startsWith_append (startsWith_row row nonempty), if_true, parts.1, parts.2]

theorem readPlaces_of_ne_point (whole : ∀ s, r ≠ '.' :: s) : readPlaces r = ([], r) := by
  unfold readPlaces
  split
  next s => exact absurd rfl (whole s)
  next => rfl

theorem readPower_of_stop (stop : startsWith continuesNumber r = false) :
    readPower r = (none, r) := by
  cases r with
  | nil => rfl
  | cons c s =>
    have other : ¬ (c = 'e' ∨ c = 'E') := by
      rintro (rfl | rfl) <;> exact absurd stop Bool.noConfusion
    simp only [readPower, if_neg other]

theorem ne_point_of_stop (stop : startsWith continuesNumber r = false) (s : Text) : r ≠ '.' :: s := by
  rintro rfl
  exact absurd stop Bool.noConfusion

/-- A text is read as a power of ten, whatever follows that is no digit. -/
def SpellsPower (t : Text) (power : Int) : Prop :=
  ∀ r, startsWith Char.isDigit r = false → readPower (t ++ r) = (some power, r)

/-- The power of ten as the form with an exponent has it. -/
theorem spellsPower_written (power : Int) (zeros : Nat) :
    SpellsPower ('e' :: (if power < 0 then '-' else '+') ::
      (List.replicate zeros '0' ++ Nat.toDigits 10 power.natAbs)) power := by
  intro r stop
  have row : ∀ c ∈ List.replicate zeros '0' ++ Nat.toDigits 10 power.natAbs, c.isDigit = true :=
    fun _ => Decimal.isDigit_of_mem_power
  have starts := startsWith_append (r := r) (startsWith_row row (by simp [Nat.toDigits_ne_nil]))
  have parts := row_append row stop
  simp only [List.cons_append, readPower, true_or, if_true, Decimal.splitSign_power, starts, parts.1,
    parts.2, Decimal.digitsValue_power, decide_eq_true_eq, Decimal.signed_natAbs]

/-- The sign in front of the digits is read first. -/
theorem readNumber_signText {digits : Text} (whole : wholeDigits? t = some (digits, u)) :
    readNumber (signText negative ++ t) = (do
      let (places, r) := readPlaces u
      let (power, r) := readPower r
      if places.isEmpty && power.isNone then
        if Numeral.maxDigits < digits.length then throw (.tooManyDigits digits.length)
        let size : Int := digitsValue digits
        return (integer (if negative then -size else size), r)
      else
        let d : Decimal := ⟨digitsValue (digits ++ places), power.getD 0 - places.length⟩
        return (number (Numeral.signed negative d), r)) := by
  have unsigned : ∀ s, t ≠ '-' :: s := by
    rintro s rfl
    contradiction
  unfold readNumber
  cases negative with
  | true =>
    simp only [signText, if_true, List.cons_append, List.nil_append, whole, orMalformed]
    rfl
  | false =>
    simp only [signText, Bool.false_eq_true, if_false, List.nil_append, whole, orMalformed]
    rfl

/-- Whatever follows, unless the number goes on with it, the text is read as this decimal: it has a
point or a power. -/
def Spells (t : Text) (d : Decimal) : Prop :=
  ∀ (negative : Bool) (r : Text), startsWith continuesNumber r = false →
    readNumber (signText negative ++ (t ++ r)) = .ok (number (signed negative d), r)

theorem not_isDigit_point (r : Text) : startsWith Char.isDigit ('.' :: r) = false := by
  show Char.isDigit '.' = false
  decide

theorem not_isDigit_mark (r : Text) : startsWith Char.isDigit ('e' :: r) = false := by
  show Char.isDigit 'e' = false
  decide

/-- Two rows of digits with a point between them. -/
theorem spells_rows (whole : IsWholePart t) (row : ∀ c ∈ u, c.isDigit = true) (nonempty : u ≠ []) :
    Spells (t ++ '.' :: u) ⟨digitsValue (t ++ u), -u.length⟩ := by
  intro negative r stop
  have front := wholeDigits?_append (r := '.' :: (u ++ r)) whole (not_isDigit_point _)
  rw [List.append_assoc, List.cons_append, readNumber_signText front]
  simp only [readPlaces_append row nonempty (not_isDigit_of_stop stop), readPower_of_stop stop,
    List.isEmpty_eq_false_iff.2 nonempty, Bool.false_and, Bool.false_eq_true, if_false,
    Option.getD_none, Int.zero_sub]
  rfl

/-- A number that is whole has a point and a zero put behind it. -/
theorem spells_point (nonzero : d.coefficient ≠ 0) (whole : 0 ≤ d.exponent) :
    ∃ e : Decimal, Spells (d.positional ++ ['.', '0']) e ∧ e.bits = d.bits := by
  obtain ⟨c, s, head, first⟩ := toDigits_head nonzero
  have shape : d.digits ++ List.replicate d.exponent.toNat '0' =
      c :: (s ++ List.replicate d.exponent.toNat '0') := by
    rw [Decimal.digits, head, List.cons_append]
  have row : ∀ e ∈ d.digits ++ List.replicate d.exponent.toNat '0', e.isDigit = true :=
    fun e member => Decimal.isDigit_of_mem_whole member
  have part : IsWholePart (d.digits ++ List.replicate d.exponent.toNat '0') := by
    rw [shape] at row ⊢
    obtain ⟨digit, later⟩ := List.forall_mem_cons.1 row
    exact .inr ⟨c, _, rfl, digit, first, later⟩
  have spelled := spells_rows (u := ['0']) part (by decide) (by decide)
  rw [← Decimal.positional_of_whole whole] at spelled
  refine ⟨_, spelled, ?_⟩
  have all : ∀ e ∈ d.digits ++ List.replicate d.exponent.toNat '0' ++ ['0'], e.isDigit = true :=
    fun e member => (List.mem_append.1 member).elim (row e) (by simp +contextual)
  have value : digitsValue (d.digits ++ List.replicate d.exponent.toNat '0' ++ ['0']) =
      10 * (d.coefficient * 10 ^ d.exponent.toNat) := by
    rw [digitsValue_of_row all, Nat.ofDigitChars_append, Decimal.ofDigitChars_whole]
    rfl
  have written := Decimal.bits_written d
  rw [Decimal.written, if_pos whole] at written
  rw [Decimal.positional_of_whole whole, value, ← written, Decimal.bits_shifted]
  rfl

/-- A number with places is written with them. -/
theorem spells_places (nonzero : d.coefficient ≠ 0) (places : d.exponent < 0) :
    Spells d.positional d := by
  obtain ⟨c, s, head, first⟩ := toDigits_head nonzero
  have long := d.length_padded
  have back : (d.padded.drop (d.padded.length - (-d.exponent).toNat)).length =
      (-d.exponent).toNat := by
    rw [List.length_drop]
    omega
  have spelled := spells_rows (Decimal.isWholePart_take head first)
    (fun e member => Decimal.isDigit_of_mem_padded (d := d) (List.mem_of_mem_drop member))
    (List.ne_nil_of_length_pos (by rw [back]; omega))
  have exponent : -(((-d.exponent).toNat : Nat) : Int) = d.exponent := by omega
  rw [List.take_append_drop, back, exponent,
    digitsValue_of_row (fun e member => Decimal.isDigit_of_mem_padded member),
    Decimal.ofDigitChars_padded] at spelled
  rw [Decimal.positional_of_places places]
  exact spelled

theorem SpellsPower.whole (power : SpellsPower ('e' :: u) e) (part : IsWholePart t) :
    Spells (t ++ 'e' :: u) ⟨digitsValue t, e⟩ := by
  intro negative r stop
  have front := wholeDigits?_append (r := 'e' :: (u ++ r)) part (not_isDigit_mark _)
  have mark := power r (not_isDigit_of_stop stop)
  rw [List.cons_append] at mark
  rw [List.append_assoc, List.cons_append, readNumber_signText front]
  simp only [readPlaces_of_ne_point (r := 'e' :: (u ++ r)) (fun s => by simp), mark,
    Option.isNone_some, Bool.and_false, Bool.false_eq_true, if_false, Option.getD_some,
    List.append_nil, List.length_nil, Int.natCast_zero, Int.sub_zero]
  rfl

theorem SpellsPower.rows {v : Text} (power : SpellsPower ('e' :: v) e) (part : IsWholePart t)
    (row : ∀ c ∈ u, c.isDigit = true) (nonempty : u ≠ []) :
    Spells (t ++ '.' :: (u ++ 'e' :: v)) ⟨digitsValue (t ++ u), e - u.length⟩ := by
  intro negative r stop
  have front := wholeDigits?_append (r := '.' :: (u ++ ('e' :: v ++ r))) part (not_isDigit_point _)
  have mark := power r (not_isDigit_of_stop stop)
  rw [List.append_assoc, List.cons_append, List.append_assoc, readNumber_signText front]
  simp only [readPlaces_append (r := 'e' :: v ++ r) row nonempty (not_isDigit_mark _), mark,
    Option.isNone_some, Bool.and_false, Bool.false_eq_true, if_false, Option.getD_some]
  rfl

/-- The form with an exponent has all digits of the decimal. -/
theorem spells_scientific (nonzero : d.coefficient ≠ 0) : Spells d.scientific d := by
  have value : Nat.ofDigitChars 10 d.digits 0 = d.coefficient := Nat.ofDigitChars_ten_toDigits
  have row : ∀ c ∈ d.digits, c.isDigit = true := fun _ member => Decimal.isDigit_of_mem_digits member
  rw [← digitsValue_of_row row] at value
  obtain ⟨c, s, head, first⟩ := toDigits_head nonzero
  have head : d.digits = c :: s := head
  rw [head] at value row
  obtain ⟨digit, later⟩ := List.forall_mem_cons.1 row
  have one : IsWholePart [c] := .inr ⟨c, [], rfl, digit, first, by simp⟩
  have power := spellsPower_written (d.exponent + ((d.digits.length : Int) - 1))
    (2 - (Nat.toDigits 10 (d.exponent + ((d.digits.length : Int) - 1)).natAbs).length)
  unfold Decimal.scientific
  rw [head] at power ⊢
  cases s with
  | nil =>
    have exponent : d.exponent + (([c].length : Int) - 1) = d.exponent := by
      rw [List.length_singleton]
      omega
    have spelled := power.whole one
    rw [value, exponent] at spelled
    simp only [exponent, List.cons_append, List.nil_append] at spelled ⊢
    exact spelled
  | cons e s =>
    have exponent : d.exponent + (((c :: e :: s).length : Int) - 1) - (e :: s).length = d.exponent := by
      simp only [List.length_cons]
      omega
    have spelled := power.rows one later (List.cons_ne_nil e s)
    rw [exponent, show [c] ++ e :: s = c :: e :: s from rfl, value] at spelled
    simp only [List.append_assoc, List.cons_append, List.nil_append] at spelled ⊢
    exact spelled

theorem spells_shownMagnitude {bits : Nat} (nonzero : bits ≠ 0) (finite : bits < infinityBits) :
    ∃ d : Decimal, Spells (shownMagnitude bits) d ∧ d.bits = bits := by
  have last := Decimal.shortest_last nonzero finite
  have coefficient : (Decimal.shortest bits).coefficient ≠ 0 := by omega
  have value := Decimal.bits_shortest finite
  unfold shownMagnitude
  dsimp only
  split
  · split
    next whole =>
      obtain ⟨d, spelled, same⟩ := spells_point coefficient whole
      exact ⟨d, spelled, same.trans value⟩
    next places =>
      rw [List.append_nil]
      exact ⟨_, spells_places coefficient (by omega), value⟩
  · exact ⟨_, spells_scientific coefficient, value⟩

/-- A finite number is shown as a decimal that reads as this number. -/
theorem exists_shown (finite : x.isFinite = true) : ∃ t d,
    shown x = signText (isNegative x) ++ t ∧ startsWith Char.isDigit t = true ∧ Spells t d ∧
      signed (isNegative x) d = x := by
  have below := isFinite_iff.1 finite
  have number : x.isNaN = false := isNaN_eq_false_iff.2 (Nat.le_of_lt below)
  have limited : ¬ x.isInf = true := fun infinite => Nat.ne_of_lt below (isInf_iff.1 infinite)
  have same := ofMagnitude_magnitude (Nat.le_of_lt below)
  unfold shown
  rw [number, if_neg Bool.false_ne_true, if_neg limited]
  by_cases zero : magnitude x = 0
  · have spelled : Spells (['0'] ++ '.' :: ['0']) ⟨digitsValue ['0', '0'], -1⟩ :=
      spells_rows (.inl rfl) (by decide) (by decide)
    have nothing : Decimal.bits ⟨digitsValue ['0', '0'], -1⟩ = 0 := by decide
    rw [if_pos zero]
    refine ⟨_, _, rfl, rfl, spelled, ?_⟩
    rw [signed, nothing, ← zero, same]
  · obtain ⟨d, spelled, value⟩ := spells_shownMagnitude zero below
    rw [if_neg zero]
    refine ⟨_, d, rfl, shownMagnitude_startsWith _, spelled, ?_⟩
    rw [signed, value, same]

/-- What begins with none of the names is read as a number. -/
theorem readScalar_of_unnamed (unnamed : ∀ entry ∈ names, after? entry.1 t = none) :
    readScalar t = readNumber t := by
  unfold readScalar
  dsimp only
  split
  next found named =>
    obtain ⟨entry, member, after⟩ := List.exists_of_findSome?_eq_some named
    rw [unnamed entry member] at after
    contradiction
  next => rfl

/-- What begins with digits, behind a sign or not, is no name. -/
theorem readScalar_signText (digit : startsWith Char.isDigit t = true) :
    readScalar (signText negative ++ t) = readNumber (signText negative ++ t) := by
  obtain ⟨c, s, rfl⟩ : ∃ c s, t = c :: s := by
    cases t with
    | nil => contradiction
    | cons c s => exact ⟨c, s, rfl⟩
  have digit : c.isDigit = true := digit
  have other {d : Char} (letter : d.isDigit = false) : d ≠ c := by
    rintro rfl
    rw [letter] at digit
    contradiction
  apply readScalar_of_unnamed
  simp only [names, List.forall_mem_cons]
  cases negative <;>
    simp [after?, signText, other (d := 'n') rfl, other (d := 't') rfl, other (d := 'f') rfl,
      other (d := 'N') rfl, other (d := 'I') rfl, other (d := '-') rfl]

/-- A number is read back where it is written, by its name if it is not finite. -/
theorem readScalar_writtenNumber (x : Float) (stop : startsWith continuesNumber r = false) :
    readScalar (writtenNumber x ++ r) = .ok (number x, r) := by
  unfold writtenNumber
  rcases class_cases x with above | infinite | rest
  · have same : x = Double.nan := by
      rw [eq_packed_notANumber above, eq_packed_notANumber (x := Double.nan) (by decide)]
    rw [if_pos (isNaN_iff.2 above), same]
    rfl
  · have same : infinity (isNegative x) = x := by
      rw [infinity, ← infinite, ofMagnitude_magnitude (Nat.le_of_eq infinite)]
    have number : ¬ x.isNaN = true := by
      rw [isNaN_iff]
      omega
    rw [if_neg number, if_pos (isInf_iff.2 infinite)]
    rw [← same]
    cases isNegative x <;> rfl
  · have below : magnitude x < infinityBits := rest.elim (fun zero => by rw [zero]; decide) And.right
    have number : ¬ x.isNaN = true := by
      rw [isNaN_iff]
      omega
    have limited : ¬ x.isInf = true := by
      rw [isInf_iff]
      omega
    obtain ⟨t, d, shape, digit, spelled, value⟩ := exists_shown (isFinite_iff.2 below)
    rw [if_neg number, if_neg limited, shape, List.append_assoc,
      readScalar_signText (startsWith_append digit), spelled _ r stop, value]

theorem toList_toString (n : Int) :
    (toString n).toList = signText (decide (n < 0)) ++ Nat.toDigits 10 n.natAbs := by
  rw [Int.toString_eq_repr, Int.repr_eq_if]
  by_cases negative : n < 0
  · have size : (-n).toNat = n.natAbs := by omega
    rw [if_neg (by omega), decide_eq_true negative, String.toList_append, Nat.toList_repr, size]
    rfl
  · have size : n.toNat = n.natAbs := by omega
    rw [if_pos (by omega), decide_eq_false negative, Nat.toList_repr, size]
    rfl

theorem isWholePart_toDigits (n : Nat) : IsWholePart (Nat.toDigits 10 n) := by
  by_cases zero : n = 0
  · rw [zero]
    exact .inl rfl
  · obtain ⟨c, s, head, first⟩ := toDigits_head zero
    have row : ∀ c ∈ Nat.toDigits 10 n, c.isDigit = true := fun c member =>
      Nat.isDigit_of_mem_toDigits (by decide) (by decide) member
    rw [head] at row ⊢
    obtain ⟨digit, later⟩ := List.forall_mem_cons.1 row
    exact .inr ⟨c, s, rfl, digit, first, later⟩

/-- A whole number with not too many digits is read back where it is written. -/
theorem readScalar_toString (short : (Nat.toDigits 10 n.natAbs).length ≤ maxDigits)
    (stop : startsWith continuesNumber r = false) :
    readScalar ((toString n).toList ++ r) = .ok (integer n, r) := by
  have row : ∀ c ∈ Nat.toDigits 10 n.natAbs, c.isDigit = true := fun c member =>
    Nat.isDigit_of_mem_toDigits (by decide) (by decide) member
  have value : digitsValue (Nat.toDigits 10 n.natAbs) = n.natAbs := by
    rw [digitsValue_of_row row, Nat.ofDigitChars_ten_toDigits]
  have starts := startsWith_row row Nat.toDigits_ne_nil
  have front := wholeDigits?_append (isWholePart_toDigits n.natAbs) (not_isDigit_of_stop stop)
  rw [toList_toString, List.append_assoc, readScalar_signText (startsWith_append starts),
    readNumber_signText front]
  simp only [readPlaces_of_ne_point (ne_point_of_stop stop), readPower_of_stop stop,
    List.isEmpty_nil, Option.isNone_none, Bool.and_self, if_true, value,
    if_neg (Nat.not_lt.2 short), decide_eq_true_eq]
  have same : (if n < 0 then -(n.natAbs : Int) else n.natAbs) = n := by
    split <;> omega
  rw [same]
  rfl

theorem codeUnit?_append {n : Nat} (read : codeUnit? t = some (n, [])) (r : Text) :
    codeUnit? (t ++ r) = some (n, r) := by
  unfold codeUnit? at read
  split at read
  next a b c d s =>
    simp only [Option.bind_eq_bind, Option.bind_eq_some_iff] at read
    obtain ⟨a', first, b', second, c', third, d', fourth, same⟩ := read
    cases same
    simp only [codeUnit?, List.cons_append, List.nil_append, first, second, third, fourth,
      Option.bind_eq_bind, Option.bind_some]
  next => contradiction

theorem codeUnit?_hexadecimal {n : Nat} (control : n < 32) (r : Text) :
    codeUnit? (hexadecimal 4 n ++ r) = some (n, r) := by
  have read : ∀ n < 32, codeUnit? (hexadecimal 4 n) = some (n, []) := by decide +kernel
  exact codeUnit?_append (read n control) r

/-- What is no surrogate stands for itself, whatever follows. -/
theorem joinUnits_of_lt {unit : Nat} (low : unit < 0xD800) (t : Text) :
    joinUnits unit t = (.char (Char.ofNat unit), t) := by
  have single : CodePoint.ofUnit unit = .char (Char.ofNat unit) := dif_neg (by omega)
  have high (n : Nat) : ¬ (0xD800 ≤ unit ∧ unit < 0xDC00 ∧ 0xDC00 ≤ n ∧ n < 0xE000) := by omega
  unfold joinUnits
  split
  · split
    · rw [if_neg (high _), single]
    · rw [single]
  · rw [single]

theorem readText_escape {fuel : Nat} {s : Text} {p : CodePoint} (escape : escape? s = some (p, r)) :
    readText (fuel + 1) ('\\' :: s) = (readText fuel r).map fun (t, rest) => (p :: t, rest) := by
  have other : ¬ '\\' = '"' := by decide
  simp only [readText, if_neg other, if_true, escape, Option.bind_eq_bind, Option.bind_some]
  cases readText fuel r <;> rfl

/-- A character is read in one step where it is written. -/
theorem readText_writtenChar (fuel : Nat) (c : Char) (r : Text) :
    readText (fuel + 1) (writtenChar c ++ r) =
      (readText fuel r).map fun (t, rest) => (.char c :: t, rest) := by
  have named {n : Nat} (code : c.toNat = n) : c = Char.ofNat n := by
    rw [← code, Char.ofNat_toNat]
  unfold writtenChar
  split_ifs with quote newline back tab eight twelve control
  · exact readText_escape (by rcases quote with rfl | rfl <;> rfl)
  · exact readText_escape (by rw [newline]; rfl)
  · exact readText_escape (by rw [back]; rfl)
  · exact readText_escape (by rw [tab]; rfl)
  · exact readText_escape (by rw [named eight]; rfl)
  · exact readText_escape (by rw [named twelve]; rfl)
  · apply readText_escape
    show (codeUnit? (hexadecimal 4 c.toNat ++ r)).map _ = _
    rw [codeUnit?_hexadecimal control, Option.map_some]
    exact congrArg some ((joinUnits_of_lt (by omega) r).trans (by rw [Char.ofNat_toNat]))
  · rw [not_or] at quote
    simp only [readText, List.cons_append, List.nil_append, if_neg quote.1, if_neg quote.2,
      if_neg control]
    cases readText fuel r <;> rfl

/-- A text is read back where it is written. -/
theorem readText_writtenText {fuel : Nat} (enough : t.length < fuel) (r : Text) :
    readText fuel (t.flatMap writtenChar ++ '"' :: r) = some (↑t, r) := by
  induction t generalizing fuel with
  | nil =>
    obtain ⟨fuel, rfl⟩ := Nat.exists_eq_succ_of_ne_zero (Nat.ne_of_gt enough)
    rfl
  | cons c s ih =>
    obtain ⟨fuel, rfl⟩ := Nat.exists_eq_succ_of_ne_zero (Nat.ne_of_gt (Nat.zero_lt_of_lt enough))
    rw [List.flatMap_cons, List.append_assoc, readText_writtenChar,
      ih (Nat.lt_of_succ_lt_succ enough)]
    rfl

end Reckoner.Json
