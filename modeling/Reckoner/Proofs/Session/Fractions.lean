import Reckoner.Proofs.Decimal.Whole
import Reckoner.Proofs.Double.Alike
import Reckoner.Proofs.Json.Scalars
import Reckoner.Proofs.Operation.Fraction
import Reckoner.Proofs.Outcome
import Reckoner.Session.Display

set_option autoImplicit false

/- Results shown as fractions. What is shown is a proper fraction in lowest terms, behind a whole
number where that is not zero; its sign is that of both parts together. Whole parts and remainders
are taken of the numerator with its sign, so for a negative number both are one step off and are put
right. -/
namespace Reckoner.Display

/-- A whole number and a proper fraction in lowest terms that is not zero, with one sign for both. -/
structure Mixed where
  negative : Bool
  whole : Nat
  numerator : Nat
  denominator : Nat
  positive : 0 < numerator
  proper : numerator < denominator
  lowest : numerator.Coprime denominator

namespace Mixed

/-- A mixed number as it is written; a whole part that is zero is left out. -/
def text (m : Mixed) : Text :=
  Double.signText m.negative ++
    ((if m.whole = 0 then [] else Nat.toDigits 10 m.whole ++ [' ']) ++
      (Nat.toDigits 10 m.numerator ++ '/' :: Nat.toDigits 10 m.denominator))

/-- The number that is written. The sign applies to the whole part and to the fraction. -/
def value (m : Mixed) : Rat :=
  (if m.negative then -1 else 1) * (m.whole + m.numerator / m.denominator)

def ofRat (q : Rat) (broken : 1 < q.den) : Mixed where
  negative := q.num < 0
  whole := q.num.natAbs / q.den
  numerator := q.num.natAbs % q.den
  denominator := q.den
  positive := Nat.emod_pos_of_not_dvd fun divides =>
    absurd (Nat.Coprime.eq_one_of_dvd q.reduced.symm divides) (Nat.ne_of_gt broken)
  proper := Nat.mod_lt _ q.den_pos
  lowest := by
    rw [Nat.coprime_iff_gcd_eq_one, ← Nat.gcd_rec, Nat.gcd_comm]
    exact q.reduced

theorem value_ofRat (q : Rat) (broken : 1 < q.den) : (ofRat q broken).value = q := by
  have nonzero : (q.den : Rat) ≠ 0 := Nat.cast_ne_zero.2 q.den_nz
  have total : ((q.num.natAbs % q.den : Nat) : Rat) + q.den * (q.num.natAbs / q.den : Nat) =
      q.num.natAbs := by
    exact_mod_cast Nat.mod_add_div q.num.natAbs q.den
  have size : ((q.num.natAbs / q.den : Nat) : Rat) + (q.num.natAbs % q.den : Nat) / q.den =
      q.num.natAbs / q.den := by
    rw [← total]
    field_simp
    ring
  have signed : (if q.num < 0 then -1 else 1) * (q.num.natAbs : Rat) = q.num := by
    split
    next negative =>
      have same : (q.num.natAbs : Int) = -q.num := by omega
      have cast : (q.num.natAbs : Rat) = -q.num := by
        rw [← Int.cast_natCast, same, Int.cast_neg]
      rw [cast]
      ring
    next nonnegative =>
      have same : (q.num.natAbs : Int) = q.num := by omega
      have cast : (q.num.natAbs : Rat) = q.num := by rw [← Int.cast_natCast, same]
      rw [cast, one_mul]
  calc (ofRat q broken).value
      = (if q.num < 0 then -1 else 1) * (q.num.natAbs / q.den) := by
        simp only [value, ofRat, size, decide_eq_true_eq]
    _ = q.num / q.den := by rw [← mul_div_assoc, signed]
    _ = q := q.num_div_den

theorem isDigit_of_mem {n : Nat} {c : Char} (member : c ∈ Nat.toDigits 10 n) :
    c.isDigit = true :=
  Nat.isDigit_of_mem_toDigits (by decide) (by decide) member

theorem toDigits_injective {n k : Nat} (same : Nat.toDigits 10 n = Nat.toDigits 10 k) : n = k := by
  rw [← Nat.ofDigitChars_ten_toDigits (n := n), same, Nat.ofDigitChars_ten_toDigits]

theorem notMem_toDigits (n : Nat) {c : Char} (other : c.isDigit = false) :
    c ∉ Nat.toDigits 10 n := fun member => by
  rw [isDigit_of_mem member] at other
  contradiction

def upper (m : Mixed) : Text :=
  (if m.whole = 0 then [] else Nat.toDigits 10 m.whole ++ [' ']) ++ Nat.toDigits 10 m.numerator

theorem text_eq_upper (m : Mixed) : m.text =
    (Double.signText m.negative ++ m.upper) ++ '/' :: Nat.toDigits 10 m.denominator := by
  unfold text upper
  simp only [List.append_assoc]

theorem notMem_upper (m : Mixed) {c : Char} (other : c.isDigit = false) (ink : c ≠ ' ') :
    c ∉ m.upper := by
  unfold upper
  split <;> simp [notMem_toDigits _ other, ink]

theorem notMem_signed (m : Mixed) : '/' ∉ Double.signText m.negative ++ m.upper := by
  have body := m.notMem_upper (c := '/') rfl (by decide)
  unfold Double.signText
  split <;> simp [body]

/-- A sign is told from what is behind it, where that has none. -/
theorem signText_append_inj {a b : Bool} {u v : Text} (left : '-' ∉ u) (right : '-' ∉ v)
    (same : Double.signText a ++ u = Double.signText b ++ v) : a = b ∧ u = v := by
  cases a <;> cases b
  · exact ⟨rfl, same⟩
  · refine absurd ?_ left
    rw [show u = '-' :: v from same]
    exact List.mem_cons_self
  · refine absurd ?_ right
    rw [show v = '-' :: u from same.symm]
    exact List.mem_cons_self
  · exact ⟨rfl, List.cons.inj same |>.2⟩

theorem upper_injective {m k : Mixed} (same : m.upper = k.upper) :
    m.whole = k.whole ∧ m.numerator = k.numerator := by
  have blank (n : Nat) : ' ' ∉ Nat.toDigits 10 n := notMem_toDigits n rfl
  have apart {w n l : Nat} :
      Nat.toDigits 10 w ++ [' '] ++ Nat.toDigits 10 n ≠ Nat.toDigits 10 l := by
    intro joined
    refine blank l ?_
    rw [← joined]
    simp
  unfold upper at same
  by_cases left : m.whole = 0 <;> by_cases right : k.whole = 0
  · rw [if_pos left, if_pos right] at same
    exact ⟨left.trans right.symm, toDigits_injective same⟩
  · rw [if_pos left, if_neg right] at same
    exact absurd same.symm apart
  · rw [if_neg left, if_pos right] at same
    exact absurd same apart
  · rw [if_neg left, if_neg right, List.append_assoc, List.append_assoc] at same
    obtain ⟨whole, _, numerator⟩ :=
      (List.append_cons_inj_of_notMem (blank _) (blank _)).1 same
    exact ⟨toDigits_injective whole, toDigits_injective numerator⟩

/-- A mixed number is determined by how it is written. -/
theorem text_injective {m k : Mixed} (same : m.text = k.text) : m = k := by
  rw [text_eq_upper, text_eq_upper] at same
  obtain ⟨front, _, denominator⟩ :=
    (List.append_cons_inj_of_notMem m.notMem_signed (notMem_toDigits _ rfl)).1 same
  obtain ⟨negative, upper⟩ := signText_append_inj (m.notMem_upper rfl (by decide))
    (k.notMem_upper rfl (by decide)) front
  obtain ⟨whole, numerator⟩ := upper_injective upper
  cases m
  cases k
  congr
  exact toDigits_injective denominator

end Mixed

variable {n : Int} {d : Nat} {x : Float} {places : Int} {t : Text}

theorem ediv_emod_of_neg (negative : n < 0) (rest : 0 < n.natAbs % d) (positive : 0 < d) :
    n / d = -(n.natAbs / d : Nat) - 1 ∧ n % d = d - (n.natAbs % d : Nat) := by
  have below := Nat.mod_lt n.natAbs positive
  have size : (n.natAbs : Int) = -n := by omega
  have total : ((n.natAbs % d : Nat) : Int) + d * (n.natAbs / d : Nat) = n.natAbs := by
    exact_mod_cast Nat.mod_add_div n.natAbs d
  rw [Int.ediv_emod_unique (by omega)]
  refine ⟨?_, by omega, by omega⟩
  linear_combination -total - size

theorem ediv_emod_of_nonneg (nonnegative : 0 ≤ n) (d : Nat) :
    n / d = (n.natAbs / d : Nat) ∧ n % d = (n.natAbs % d : Nat) := by
  obtain ⟨k, rfl⟩ := Int.eq_ofNat_of_zero_le nonnegative
  exact ⟨rfl, rfl⟩

theorem toList_ratio (k : Int) (d : Nat) : (toString k ++ "/" ++ toString d).toList =
    Double.signText (k < 0) ++ (Nat.toDigits 10 k.natAbs ++ '/' :: Nat.toDigits 10 d) := by
  have below : (toString d).toList = Nat.toDigits 10 d := Nat.toList_repr
  rw [String.toList_append, String.toList_append, Json.toList_toString, below, List.append_assoc,
    List.append_assoc]
  rfl

theorem toList_mixed (w : Int) (k d : Nat) :
    (toString w ++ " " ++ (toString (k : Int) ++ "/" ++ toString d)).toList =
      Double.signText (w < 0) ++
        ((Nat.toDigits 10 w.natAbs ++ [' ']) ++ (Nat.toDigits 10 k ++ '/' :: Nat.toDigits 10 d)) := by
  have unsigned : Double.signText (decide ((k : Int) < 0)) = [] := by
    rw [decide_eq_false (Int.not_lt.2 (Int.natCast_nonneg k))]
    rfl
  rw [String.toList_append, String.toList_append, Json.toList_toString, toList_ratio, unsigned,
    List.nil_append, Int.natAbs_natCast, List.append_assoc, List.append_assoc, List.append_assoc]
  rfl

/-- The text of a fraction that is not whole, in terms of the size of its numerator. -/
theorem mixedText_eq (positive : 0 < d) (rest : 0 < n.natAbs % d) :
    mixedText n d = Double.signText (n < 0) ++
      ((if n.natAbs / d = 0 then [] else Nat.toDigits 10 (n.natAbs / d) ++ [' ']) ++
        (Nat.toDigits 10 (n.natAbs % d) ++ '/' :: Nat.toDigits 10 d)) := by
  have below := Nat.mod_lt n.natAbs positive
  unfold mixedText
  dsimp only
  by_cases proper : n.natAbs < d
  · rw [if_neg (Nat.not_lt.2 (Nat.le_of_lt proper)), toList_ratio, Nat.div_eq_of_lt proper,
      Nat.mod_eq_of_lt proper]
    rfl
  · have other : n.natAbs ≠ d := by
      intro same
      rw [same, Nat.mod_self] at rest
      exact Nat.lt_irrefl 0 rest
    have above : d < n.natAbs := by omega
    have whole : 0 < n.natAbs / d := Nat.div_pos (Nat.le_of_lt above) positive
    rw [if_pos above, if_neg (Nat.ne_of_gt whole)]
    by_cases negative : n < 0
    · obtain ⟨quotient, remainder⟩ := ediv_emod_of_neg negative rest positive
      have one : -((n.natAbs / d : Nat) : Int) - 1 + 1 = -(n.natAbs / d : Nat) := by omega
      have back : (d : Int) - (d - (n.natAbs % d : Nat)) = (n.natAbs % d : Nat) := by omega
      have left : ¬ (d : Int) - (n.natAbs % d : Nat) = 0 := by omega
      have down : -((n.natAbs / d : Nat) : Int) - 1 < 0 := by omega
      have sign : -((n.natAbs / d : Nat) : Int) < 0 := by omega
      rw [quotient, remainder, if_neg left, if_pos down, one, back, toList_mixed, Int.natAbs_neg,
        Int.natAbs_natCast, decide_eq_true negative, decide_eq_true sign]
    · obtain ⟨quotient, remainder⟩ := ediv_emod_of_nonneg (Int.not_lt.1 negative) d
      have left : ¬ ((n.natAbs % d : Nat) : Int) = 0 := by omega
      have up : ¬ ((n.natAbs / d : Nat) : Int) < 0 := by omega
      rw [quotient, remainder, if_neg left, if_neg up, toList_mixed, Int.natAbs_natCast,
        decide_eq_false negative, decide_eq_false up]

theorem mixedText_eq_text (q : Rat) (broken : 1 < q.den) :
    mixedText q.num q.den = (Mixed.ofRat q broken).text :=
  mixedText_eq q.den_pos (Mixed.ofRat q broken).positive

/-- A fraction that is shown is not whole: what rounds to a whole number is no fraction. -/
theorem one_lt_den (nonnegative : 0 ≤ places) (finite : x.isFinite = true)
    (broken : Double.isWhole x = false) {q : Rat} {back : Float}
    (rounded : round places (Double.ofRatio q.num q.den) = .ok back) (same : (back == x) = true) :
    1 < q.den := by
  by_contra small
  have one : q.den = 1 := Nat.le_antisymm (Nat.not_lt.1 small) q.den_pos
  have size := (Double.alike_of_beq same).magnitude_eq
  have limited : back.isFinite = true := by
    rwa [Double.isFinite_iff, size, ← Double.isFinite_iff]
  rw [one] at rounded
  unfold round at rounded
  by_cases bounded : (Double.ofRatio q.num 1).isFinite = true
  · have whole := Double.isWhole_ofRatio_one q.num bounded
    rw [if_pos bounded, Double.roundTo?_of_isWhole nonnegative whole] at rounded
    obtain rfl : Double.ofRatio q.num 1 = back := Except.ok.inj rounded
    obtain ⟨_, multiple⟩ := Double.isWhole_iff.1 whole
    rw [size] at multiple
    rw [Double.isWhole_iff.2 ⟨finite, multiple⟩] at broken
    contradiction
  · rw [if_neg bounded] at rounded
    obtain rfl : Double.ofRatio q.num 1 = back := Except.ok.inj rounded
    exact bounded limited

/-- What is shown of a number as a fraction is the text of one mixed number alone. That is what the
search for a small denominator gives, and as a double it rounds to the number. -/
theorem fraction_denotes (nonnegative : 0 ≤ places) (finite : x.isFinite = true)
    (broken : Double.isWhole x = false) (shown : fraction places x = .ok (some t)) :
    ∃ m : Mixed, t = m.text ∧ (∀ other : Mixed, t = other.text → other = m) ∧
      m.denominator ≤ maxDenominator ∧
      m.value = Fraction.limitDenominator maxDenominator (Double.toRat x) ∧
      ∃ back, round places (Double.ofRatio m.value.num m.value.den) = .ok back ∧
        (back == x) = true := by
  unfold fraction at shown
  have bound := Double.isFinite_iff.1 finite
  have number : x.isNaN = false := Double.isNaN_eq_false_iff.2 (Nat.le_of_lt bound)
  have limited : ¬ x.isInf = true := fun infinite =>
    Nat.ne_of_lt bound (Double.isInf_iff.1 infinite)
  rw [number, if_neg Bool.false_ne_true, if_neg limited] at shown
  dsimp only at shown
  have small : (Fraction.limitDenominator maxDenominator (Double.toRat x)).den ≤ maxDenominator :=
    Fraction.den_limitDenominator_le (by decide) _
  generalize Fraction.limitDenominator maxDenominator (Double.toRat x) = q at shown small ⊢
  obtain ⟨back, rounded, given⟩ := bind_eq_ok shown
  by_cases same : (back == x) = true
  · have more := one_lt_den nonnegative finite broken rounded same
    obtain rfl : mixedText q.num q.den = t := by
      rw [if_pos same] at given
      exact Option.some.inj (Except.ok.inj given)
    refine ⟨.ofRat q more, mixedText_eq_text q more, ?_, small, Mixed.value_ofRat q more, back, ?_,
      same⟩
    · intro other text
      rw [mixedText_eq_text q more] at text
      exact (Mixed.text_injective text).symm
    · rwa [Mixed.value_ofRat]
  · rw [if_neg same] at given
    cases given

/-- Two and a third with twelve places is no such fraction itself; the search finds it. -/
theorem fraction_denotes_thirds : (0 : Int) ≤ 12 ∧ (-2.333333333333 : Float).isFinite = true ∧
    Double.isWhole (-2.333333333333) = false ∧
    fraction 12 (-2.333333333333) = .ok (some ['-', '2', ' ', '1', '/', '3']) ∧
    ∃ m : Mixed, ['-', '2', ' ', '1', '/', '3'] = m.text ∧
      (∀ other : Mixed, ['-', '2', ' ', '1', '/', '3'] = other.text → other = m) ∧
      m.denominator ≤ maxDenominator ∧
      m.value = Fraction.limitDenominator maxDenominator (Double.toRat (-2.333333333333)) ∧
      ∃ back, round 12 (Double.ofRatio m.value.num m.value.den) = .ok back ∧
        (back == -2.333333333333) = true := by
  have finite : (-2.333333333333 : Float).isFinite = true := by decide +kernel
  have broken : Double.isWhole (-2.333333333333) = false := by decide +kernel
  have shown : fraction 12 (-2.333333333333) = .ok (some ['-', '2', ' ', '1', '/', '3']) := by
    decide +kernel
  exact ⟨by decide, finite, broken, shown, fraction_denotes (by decide) finite broken shown⟩

end Reckoner.Display
