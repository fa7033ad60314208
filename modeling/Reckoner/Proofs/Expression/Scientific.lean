import Reckoner.Proofs.Evaluation.Plain
import Reckoner.Proofs.Evaluation.Wrapped
import Reckoner.Proofs.Expression.Cut

set_option autoImplicit false

namespace Reckoner

variable {a b r raw rest t u : Text} {c : Char} {d : Decimal}

namespace Numeral

def pointed (places : Text) : Text := if places = [] then [] else '.' :: places

/-- A numeral with an exponent, in parts. -/
structure Exponential where
  whole : Text
  places : Text
  sign : Text
  power : Text
  wholeRow : ∀ c ∈ whole, isDecimalDigit c = true
  placesRow : ∀ c ∈ places, isDecimalDigit c = true
  powerRow : ∀ c ∈ power, isDecimalDigit c = true
  wholeSome : whole ≠ []
  powerSome : power ≠ []
  leads : IsLead sign

namespace Exponential

def exponent (n : Exponential) : Int :=
  if n.sign = ['-'] then -digitsValue n.power else digitsValue n.power

def decimal (n : Exponential) : Decimal :=
  ⟨digitsValue (n.whole ++ n.places), n.exponent - n.places.length⟩

def text (n : Exponential) : Text :=
  n.whole ++ (pointed n.places ++ 'E' :: (n.sign ++ n.power))

/-- What an expression has in the place of the numeral. -/
def writtenOut (n : Exponential) : Text := Double.plain (Numeral.signed false n.decimal)

end Exponential

theorem not_isSign_of_isDecimalDigit (digit : isDecimalDigit c = true) : isSign c = false := by
  rw [← Bool.not_eq_true]
  intro sign
  rcases isSign_iff.1 sign with rfl | rfl <;> exact absurd digit (by decide)

theorem digits_row (row : ∀ c ∈ t, isDecimalDigit c = true)
    (stop : ∀ c ∈ r.head?, isDecimalDigit c = false) :
    digits (t ++ r) = t ∧ afterDigits (t ++ r) = r :=
  takeWhile_append_of_stop row stop

theorem digits_parts (t : Text) : digits t ++ afterDigits t = t ∧
    (∀ c ∈ digits t, isDecimalDigit c = true) ∧
    ∀ c ∈ (afterDigits t).head?, isDecimalDigit c = false :=
  ⟨List.takeWhile_append_dropWhile, List.all_eq_true.1 List.all_takeWhile, stop_dropWhile t⟩

theorem splitPlaces_pointed (row : ∀ c ∈ t, isDecimalDigit c = true) (u : Text) :
    splitPlaces (pointed t ++ 'E' :: u) = (t, 'E' :: u) := by
  have stop : ∀ c ∈ ('E' :: u).head?, isDecimalDigit c = false := by
    intro c head
    cases head
    decide
  unfold pointed
  by_cases none : t = []
  · rw [if_pos none, none, List.nil_append]
    exact splitPlaces_of_no_point (by decide) u
  · obtain ⟨front, back⟩ := digits_row row stop
    have some : t.isEmpty = false := List.isEmpty_eq_false_iff.2 none
    rw [if_neg none, List.cons_append, splitPlaces, front, back, some, if_neg Bool.false_ne_true]

theorem power?_signed {sign : Text} (leads : IsLead sign) (row : ∀ c ∈ t, isDecimalDigit c = true)
    (nonempty : t ≠ []) (stop : ∀ c ∈ r.head?, isDecimalDigit c = false) :
    power? (sign ++ (t ++ r)) =
      some (if sign = ['-'] then -(digitsValue t : Int) else digitsValue t, r) := by
  obtain ⟨front, back⟩ := digits_row row stop
  have some : t.isEmpty = false := List.isEmpty_eq_false_iff.2 nonempty
  have split : splitSign (sign ++ (t ++ r)) = (decide (sign = ['-']), t ++ r) := by
    rcases leads with rfl | rfl | rfl
    · obtain ⟨c, s, rfl⟩ := List.exists_cons_of_ne_nil nonempty
      exact splitSign_of_no_sign (not_isSign_of_isDecimalDigit (row c (.head _)))
    · rfl
    · rfl
  unfold power?
  simp only [split, front, back, some, decide_eq_true_eq, Bool.false_eq_true, if_false]

namespace Exponential

variable (n : Exponential)

/-- A numeral is read to its last digit. -/
theorem scientific?_text (stop : ∀ c ∈ rest.head?, isDecimalDigit c = false) :
    scientific? (n.text ++ rest) = some (n.decimal, rest) := by
  have mark : ∀ c ∈ (pointed n.places ++ 'E' :: (n.sign ++ (n.power ++ rest))).head?,
      isDecimalDigit c = false := by
    intro c head
    unfold pointed at head
    split at head
    · cases head
      decide
    · cases head
      decide
  have shape : n.text ++ rest =
      n.whole ++ (pointed n.places ++ 'E' :: (n.sign ++ (n.power ++ rest))) := by
    simp [text]
  obtain ⟨front, back⟩ := digits_row n.wholeRow mark
  have some : n.whole.isEmpty = false := List.isEmpty_eq_false_iff.2 n.wholeSome
  unfold scientific?
  rw [shape]
  simp only [front, back, splitPlaces_pointed n.placesRow, some, Bool.false_eq_true, if_false,
    power?_signed n.leads n.powerRow n.powerSome stop, Option.map_some]
  rfl

theorem head_text : ∃ c s, n.text = c :: s := by
  obtain ⟨c, s, shape⟩ := List.exists_cons_of_ne_nil n.wholeSome
  refine ⟨c, s ++ (pointed n.places ++ 'E' :: (n.sign ++ n.power)), ?_⟩
  rw [text, shape, List.cons_append]

/-- A numeral ends with a digit. -/
theorem last_text : ∀ c ∈ n.text.getLast?, isDecimalDigit c = true := by
  intro c last
  have some : ('E' :: (n.sign ++ n.power)) ≠ [] := List.cons_ne_nil _ _
  have shape : n.text = (n.whole ++ pointed n.places ++ 'E' :: n.sign) ++ n.power := by
    simp [text]
  rw [shape, List.getLast?_append_of_ne_nil _ n.powerSome] at last
  exact n.powerRow c (List.mem_of_getLast? last)

theorem ne_space : ∀ c ∈ n.text, c ≠ ' ' := by
  have digit {row : Text} (all : ∀ c ∈ row, isDecimalDigit c = true) : ' ' ∉ row := fun member =>
    absurd (all ' ' member) (by decide)
  have places : ' ' ∉ pointed n.places := by
    unfold pointed
    split
    · exact nofun
    · exact List.not_mem_cons_of_ne_of_not_mem (by decide) (digit n.placesRow)
  have sign : ' ' ∉ n.sign := by
    rcases n.leads with none | plus | minus
    · rw [none]
      exact nofun
    · rw [plus]
      decide
    · rw [minus]
      decide
  rintro c member rfl
  unfold text at member
  simp only [List.mem_append, List.mem_cons] at member
  rcases member with front | point | mark | first | back
  · exact digit n.wholeRow front
  · exact places point
  · contradiction
  · exact sign first
  · exact digit n.powerRow back

end Exponential

theorem splitPlaces_parts (t : Text) : t = pointed (splitPlaces t).1 ++ (splitPlaces t).2 ∧
    ∀ c ∈ (splitPlaces t).1, isDecimalDigit c = true := by
  unfold splitPlaces
  split
  next r =>
    obtain ⟨whole, row, _⟩ := digits_parts r
    split
    · exact ⟨rfl, nofun⟩
    next some =>
      have nonempty : digits r ≠ [] := fun none => some (by rw [none]; rfl)
      refine ⟨?_, row⟩
      rw [pointed, if_neg nonempty, List.cons_append, whole]
  next => exact ⟨rfl, nofun⟩

theorem power?_parts {power : Int} (found : power? t = some (power, rest)) :
    ∃ sign row, IsLead sign ∧ row ≠ [] ∧ (∀ c ∈ row, isDecimalDigit c = true) ∧
      t = sign ++ (row ++ rest) ∧ ∀ c ∈ rest.head?, isDecimalDigit c = false := by
  obtain ⟨sign, leads, shape⟩ := splitSign_shape t
  obtain ⟨whole, row, stop⟩ := digits_parts (splitSign t).2
  simp only [power?] at found
  split at found
  · contradiction
  next some =>
    cases found
    refine ⟨sign, digits (splitSign t).2, leads, fun none => some (by rw [none]; rfl), row, ?_, stop⟩
    rw [whole]
    exact shape

/-- What is read as a numeral with an exponent is one. -/
theorem exists_exponential (found : scientific? t = some (d, rest)) :
    ∃ n : Exponential, t = n.text ++ rest ∧ d = n.decimal ∧
      ∀ c ∈ rest.head?, isDecimalDigit c = false := by
  obtain ⟨whole, row, _⟩ := digits_parts t
  obtain ⟨behind, placesRow⟩ := splitPlaces_parts (afterDigits t)
  have read := found
  simp only [scientific?] at found
  split at found
  · contradiction
  next some =>
    split at found
    next r mark =>
      obtain ⟨⟨power, after⟩, signed, same⟩ := Option.map_eq_some_iff.1 found
      obtain rfl : after = rest := congrArg Prod.snd same
      obtain ⟨sign, exponent, leads, nonempty, powerRow, shape, stop⟩ := power?_parts signed
      let n : Exponential := ⟨digits t, (splitPlaces (afterDigits t)).1, sign, exponent, row, placesRow,
        powerRow, fun none => some (by rw [none]; rfl), nonempty, leads⟩
      have parts : t = n.text ++ after := by
        rw [mark, shape] at behind
        calc t = digits t ++ afterDigits t := whole.symm
          _ = digits t ++ (pointed (splitPlaces (afterDigits t)).1 ++
              'E' :: (sign ++ (exponent ++ after))) := by rw [← behind]
          _ = n.text ++ after := by simp [n, Exponential.text]
      rw [parts, n.scientific?_text stop] at read
      exact ⟨n, parts, (Prod.mk.inj (Option.some.inj read)).1.symm, stop⟩
    next => contradiction

end Numeral

open Numeral Double

/-- From the left of a text, a numeral with an exponent is found between two parts of it. -/
inductive Folds : Text → Exponential → Text → Prop
  | here (n : Exponential) {b : Text} (stop : ∀ c ∈ b.head?, isDecimalDigit c = false) : Folds [] n b
  | behind (m : Exponential) {n : Exponential} {a b : Text}
      (stop : ∀ c ∈ (a ++ (n.text ++ b)).head?, isDecimalDigit c = false) (later : Folds a n b) :
      Folds (m.text ++ a) n b
  | past {n : Exponential} {c : Char} {r a b : Text}
      (missed : scientific? (c :: (r ++ (a ++ (n.text ++ b)))) = none)
      (row : ∀ d ∈ r, continuesDigits c d = true)
      (stop : ∀ d ∈ (a ++ (n.text ++ b)).head?, continuesDigits c d = false) (later : Folds a n b) :
      Folds (c :: (r ++ a)) n b

variable {n : Exponential}

/-- What is no digit is passed over. -/
theorem Folds.cons (digitless : isDecimalDigit c = false) (later : Folds a n b) :
    Folds (c :: a) n b := by
  have other (d : Char) : continuesDigits c d = false := by
    rw [continuesDigits, digitless, Bool.false_and]
  have passed : Folds (c :: ([] ++ a)) n b :=
    .past (scientific?_of_no_digit digitless _) (List.forall_mem_nil _) (fun d _ => other d) later
  exact passed

theorem Folds.behind_point (n : Exponential) : Folds (n.text ++ ['.']) n [] := by
  have digitless : isDecimalDigit '.' = false := by decide
  refine .behind n (fun c head => ?_) (.cons digitless (.here n nofun))
  cases head
  exact digitless

theorem Numeral.Exponential.expandScientific_text (n : Exponential)
    (stop : ∀ c ∈ rest.head?, isDecimalDigit c = false) :
    expandScientific (n.text ++ rest) = n.writtenOut ++ expandScientific rest := by
  have found := n.scientific?_text stop
  obtain ⟨c, s, shape⟩ := n.head_text
  rw [shape, List.cons_append] at found ⊢
  exact expandScientific_of_some found

/-- A numeral that is found is written out, and a point in front of it is kept. -/
theorem Folds.expanded (folds : Folds a n b) : ∃ a',
    expandScientific (a ++ (n.text ++ b)) = a' ++ (n.writtenOut ++ expandScientific b) ∧
      (a = [] → a' = []) ∧ (a.getLast? = some '.' → a'.getLast? = some '.') := by
  induction folds with
  | here n stop => exact ⟨[], n.expandScientific_text stop, fun _ => rfl, nofun⟩
  | @behind m n a b stop later ih =>
    obtain ⟨a', expanded, _, last⟩ := ih
    refine ⟨m.writtenOut ++ a', ?_, fun none => ?_, fun point => ?_⟩
    · rw [List.append_assoc, m.expandScientific_text stop, expanded, List.append_assoc]
    · obtain ⟨c, s, shape⟩ := m.head_text
      rw [shape] at none
      contradiction
    · rw [List.getLast?_append] at point ⊢
      cases front : a.getLast? with
      | none =>
        rw [front] at point
        exact absurd (m.last_text '.' point) (by decide)
      | some c =>
        rw [front] at point
        rw [last (front.trans point)]
        rfl
  | @past n c r a b missed row stop later ih =>
    obtain ⟨a', expanded, nothing, last⟩ := ih
    obtain ⟨front, back⟩ := takeWhile_append_of_stop row stop
    refine ⟨c :: (r ++ a'), ?_, nofun, fun point => ?_⟩
    · rw [List.cons_append, List.append_assoc, expandScientific_of_none missed, front, back, expanded,
        List.cons_append, List.append_assoc]
    · rw [← List.cons_append, List.getLast?_append] at point ⊢
      cases shape : a.getLast? with
      | none =>
        rw [nothing (List.getLast?_eq_none_iff.1 shape)]
        rw [shape] at point
        exact point
      | some d =>
        rw [shape] at point
        rw [last (shape.trans point)]
        rfl

/-- No other numerals are written out: a text in which none is found stays as it is. -/
theorem expandScientific_eq_self_of_not_folds
    (none : ∀ a (n : Exponential) b, t = a ++ (n.text ++ b) → ¬ Folds a n b) :
    expandScientific t = t := by
  fun_induction expandScientific t with
  | case1 => rfl
  | case2 c r d rest found ih =>
    obtain ⟨n, shape, _, stop⟩ := exists_exponential found
    exact absurd (.here n stop) (none [] n rest shape)
  | case3 c r missed ih =>
    rw [ih, List.takeWhile_append_dropWhile]
    intro a n b shape folds
    have row : ∀ d ∈ r.takeWhile (continuesDigits c), continuesDigits c d = true :=
      fun d member => List.mem_takeWhile_imp member
    have whole : c :: (r.takeWhile (continuesDigits c) ++ (a ++ (n.text ++ b))) = c :: r := by
      rw [← shape, List.takeWhile_append_dropWhile]
    refine none (c :: (r.takeWhile (continuesDigits c) ++ a)) n b ?_
      (.past (whole ▸ missed) row (shape ▸ stop_dropWhile r) folds)
    rw [List.cons_append, List.append_assoc, whole]

theorem Numeral.Exponential.isNaN_value (n : Exponential) : (signed false n.decimal).isNaN = false := by
  have notNan := bits_le n.decimal
  rw [isNaN_eq_false_iff, signed, magnitude_ofMagnitude _ notNan]
  exact notNan

theorem Numeral.Exponential.writtenOut_ne_nil (n : Exponential) : n.writtenOut ≠ [] :=
  (chained_plain n.isNaN_value).1.ne_nil

/-- It is a row of digits, the name of infinity, or has a point between digits. -/
theorem Numeral.Exponential.writtenOut_cases (n : Exponential) :
    (∀ c ∈ n.writtenOut, c.isDigit = true) ∨ n.writtenOut = infinityName ∨
      ∃ w v, n.writtenOut = w ++ '.' :: v ∧ w ≠ [] ∧ v ≠ [] ∧
        (∀ c ∈ w, c.isDigit = true) ∧ ∀ c ∈ v, c.isDigit = true := by
  have unsigned : startsWith isSign n.writtenOut = false := by
    have positive : valueSign (signed false n.decimal) = [] := by
      unfold valueSign signed
      rw [isNegative_ofMagnitude _ (bits_le n.decimal)]
      split <;> rfl
    unfold writtenOut
    rw [plain_eq n.isNaN_value, positive]
    exact sizeText_startsWith _
  rcases plain_cases n.isNaN_value with ⟨_, numeral⟩ | infinite | infinite
  · obtain ⟨sign, whole, places, shape, leads, front, back⟩ := numeral
    rcases leads with rfl | rfl
    · rcases back.row with rfl | ⟨r, rfl, nonempty, row⟩
      · left
        rw [writtenOut, shape, List.nil_append, List.append_nil]
        exact front.row
      · exact .inr (.inr ⟨whole, r, shape, front.ne_nil, nonempty, front.row, row⟩)
    · rw [writtenOut, shape] at unsigned
      contradiction
  · exact .inr (.inl infinite)
  · rw [writtenOut, infinite] at unsigned
    contradiction

theorem finish_row (row : ∀ c ∈ t, c.isDigit = true) (nonempty : t ≠ []) : finish t = t :=
  (chained_row row nonempty).finish_eq_self

theorem not_pointsApart_row (row : ∀ c ∈ t, c.isDigit = true) (u r : Text) :
    ¬ PointsApart (u ++ '.' :: (t ++ '.' :: r)) := by
  intro apart
  obtain ⟨c, member, operator⟩ := apart u t r rfl
  obtain ⟨sign, binary, _⟩ := isAlphanumeric_apart (isAlphanumeric_of_isDigit (row c member))
  rw [isOperator, sign, binary] at operator
  contradiction

/-- No point can stand in front of what is not written in digits alone. -/
theorem not_accepted_behind_point (points : ¬ ∀ c ∈ n.writtenOut, c.isDigit = true) (u t : Text) :
    ¬ Accepted (finish (u ++ '.' :: (n.writtenOut ++ t))) := by
  rw [finish_point]
  intro accepted
  obtain ⟨_, chained, apart⟩ := accepted_iff.1 accepted
  rcases n.writtenOut_cases with row | infinite | ⟨w, v, shape, nonempty, _, row, _⟩
  · exact points row
  · obtain ⟨s, head⟩ := List.head?_eq_some_iff.1
      (head?_finish (c := 'I') (by decide) (by decide) (['n', 'f', 'i', 'n', 'i', 't', 'y'] ++ t))
    rw [infinite, infinityName, List.cons_append, head] at chained
    exact absurd (chained.follows rfl) (by decide)
  · rw [shape, List.append_assoc, List.cons_append, finish_point, finish_row row nonempty] at apart
    exact not_pointsApart_row row _ _ apart

/-- No point can stand behind what is not written in digits alone. -/
theorem not_accepted_before_point (points : ¬ ∀ c ∈ n.writtenOut, c.isDigit = true) (u t : Text) :
    ¬ Accepted (finish (u ++ (n.writtenOut ++ '.' :: t))) := by
  rw [← List.append_assoc, finish_point]
  intro accepted
  obtain ⟨_, chained, apart⟩ := accepted_iff.1 accepted
  rcases n.writtenOut_cases with row | infinite | ⟨w, v, shape, _, nonempty, _, row⟩
  · exact points row
  · have split : u ++ n.writtenOut = u ++ ['I', 'n', 'f', 'i', 'n', 'i', 't'] ++ ['y'] := by
      rw [infinite, List.append_assoc]
      rfl
    obtain ⟨s, last⟩ := List.getLast?_eq_some_iff.1
      (getLast?_finish (c := 'y') (by decide) (by decide) (u ++ ['I', 'n', 'f', 'i', 'n', 'i', 't']))
    rw [split, last, List.append_assoc, List.singleton_append] at chained
    exact absurd (chained.follows rfl) (by decide)
  · rw [shape, ← List.append_assoc, finish_point, finish_row row nonempty, List.append_assoc,
      List.cons_append] at apart
    exact not_pointsApart_row row _ _ apart

/-- Between rows of digits a point is in order. -/
theorem accepted_rows (row : ∀ c ∈ t, c.isDigit = true) (nonempty : t ≠ [])
    (places : ∀ c ∈ u, c.isDigit = true) (some : u ≠ []) : Accepted (t ++ '.' :: u) := by
  have absent {c : Char} (other : c.isDigit = false) {t : Text} (row : ∀ c ∈ t, c.isDigit = true) :
      c ∉ t := fun member => by
    rw [row c member] at other
    contradiction
  have points : PointsApart (t ++ '.' :: u) :=
    (pointsApart_places places).append (absent (by decide) row)
  have flat (c : Char) (other : c.isDigit = false) (notPoint : c ≠ '.') : c ∉ t ++ '.' :: u := by
    intro member
    rcases List.mem_append.1 member with front | back
    · exact absent other row front
    · rcases List.mem_cons.1 back with same | back
      · exact notPoint same
      · exact absent other places back
  have balanced := Balanced.nil.append_flat (flat '(' (by decide) (by decide))
    (flat ')' (by decide) (by decide))
  rw [List.append_nil] at balanced
  exact accepted_iff.2 ⟨balanced.closed 0 0, chained_rows row nonempty places some, points⟩

end Reckoner
