import Reckoner.Proofs.Decimal.Written
import Reckoner.Proofs.Evaluation.Juxtaposed
import Reckoner.Proofs.Expression.Constants
import Reckoner.Proofs.Expression.Substitution

set_option autoImplicit false

namespace Reckoner

open Double

variable {c : Char} {t u : Text} {x : Float}

theorem IsWholePart.row (h : IsWholePart t) : ∀ c ∈ t, c.isDigit = true := by
  rcases h with rfl | ⟨c, r, rfl, first, _, later⟩
  · decide
  · exact List.forall_mem_cons.2 ⟨first, later⟩

theorem IsWholePart.ne_nil (h : IsWholePart t) : t ≠ [] := by
  rcases h with rfl | ⟨c, r, rfl, _⟩ <;> exact nofun

theorem IsPlaces.row (h : IsPlaces t) : t = [] ∨ ∃ r, t = '.' :: r ∧ r ≠ [] ∧
    ∀ c ∈ r, c.isDigit = true := by
  rcases h with rfl | ⟨r, c, rfl, row, last, _⟩
  · exact .inl rfl
  · exact .inr ⟨r ++ [c], rfl, by simp, List.forall_mem_append.2 ⟨row, List.forall_mem_singleton.2 last⟩⟩

theorem isChain_digits (row : ∀ d ∈ t, d.isDigit = true)
    (after : ∀ d : Char, d.isDigit = true → follows d c = true)
    (next : List.IsChain (fun a b => follows a b = true) (c :: u)) :
    List.IsChain (fun a b => follows a b = true) (t ++ c :: u) := by
  induction t with
  | nil => exact next
  | cons d t ih =>
    obtain ⟨first, later⟩ := List.forall_mem_cons.1 row
    refine List.isChain_cons.2 ⟨fun e head => ?_, ih later⟩
    cases t with
    | nil =>
      cases head
      exact after d first
    | cons f t =>
      cases head
      rw [follows_digit first, later e (.head _)]
      rfl

/-- Behind a sign, or where an expression begins, there can be digits. -/
theorem isChain_front {a : Char} (nonempty : t ≠ []) (row : ∀ d ∈ t, d.isDigit = true)
    (before : ∀ d : Char, d.isDigit = true → follows a d = true)
    (rest : List.IsChain (fun a b => follows a b = true) (t ++ u)) :
    List.IsChain (fun a b => follows a b = true) (a :: (t ++ u)) := by
  refine List.isChain_cons.2 ⟨fun d head => ?_, rest⟩
  cases t with
  | nil => contradiction
  | cons e t =>
    cases head
    exact before d (row d (.head _))

theorem follows_open_digit (digit : c.isDigit = true) : follows '(' c = true := by
  show fitsAfterBinary c = true
  simp [fitsAfterBinary, isAlphanumeric, digit]

theorem isChain_row_close (row : ∀ d ∈ t, d.isDigit = true) :
    List.IsChain (fun a b => follows a b = true) (t ++ [')']) :=
  isChain_digits row (fun d digit => by simp [follows_digit digit]) (List.isChain_singleton _)

theorem isChain_rows_close (row : ∀ d ∈ t, d.isDigit = true) (places : ∀ d ∈ u, d.isDigit = true)
    (nonempty : u ≠ []) :
    List.IsChain (fun a b => follows a b = true) (t ++ '.' :: (u ++ [')'])) :=
  isChain_digits row (fun d digit => by simp [follows_digit digit])
    (isChain_front nonempty places (fun _ digit => digit) (isChain_row_close places))

theorem chained_row (row : ∀ d ∈ t, d.isDigit = true) (nonempty : t ≠ []) : Chained t :=
  isChain_front nonempty row (fun _ => follows_open_digit) (isChain_row_close row)

theorem chained_rows (row : ∀ d ∈ t, d.isDigit = true) (nonempty : t ≠ [])
    (places : ∀ d ∈ u, d.isDigit = true) (some : u ≠ []) : Chained (t ++ '.' :: u) := by
  unfold Chained
  rw [List.append_assoc]
  exact isChain_front nonempty row (fun _ => follows_open_digit) (isChain_rows_close row places some)

theorem IsPlainNumeral.chained (h : IsPlainNumeral t) : Chained t := by
  obtain ⟨sign, whole, places, rfl, signed, front, back⟩ := h
  have minus (d : Char) (digit : d.isDigit = true) : follows '-' d = true := by
    show fitsAfterSign d = true
    simp [fitsAfterSign, isAlphanumeric, digit]
  have rest : List.IsChain (fun a b => follows a b = true) (whole ++ (places ++ [')'])) := by
    rcases back.row with rfl | ⟨r, rfl, nonempty, row⟩
    · exact isChain_row_close front.row
    · exact isChain_rows_close front.row row nonempty
  unfold Chained
  rw [List.append_assoc, List.append_assoc]
  rcases signed with rfl | rfl
  · rw [List.nil_append]
    exact isChain_front front.ne_nil front.row (fun _ => follows_open_digit) rest
  · rw [List.singleton_append]
    exact List.isChain_cons_cons.2 ⟨rfl, isChain_front front.ne_nil front.row minus rest⟩

theorem pointsApart_places (row : ∀ c ∈ t, c.isDigit = true) : PointsApart ('.' :: t) := by
  intro u v w shape
  have none : t.count '.' = 0 := List.count_eq_zero.2 fun member => absurd (row _ member) (by decide)
  have both := congrArg (List.count '.') shape
  rw [List.count_cons_self, none, List.count_append, List.count_cons_self, List.count_append,
    List.count_cons_self] at both
  omega

theorem IsPlainNumeral.mem (h : IsPlainNumeral t) (member : c ∈ t) :
    c = '-' ∨ isArgumentChar c = true := by
  obtain ⟨sign, whole, places, rfl, signed, front, back⟩ := h
  have digit (d : c.isDigit = true) : isArgumentChar c = true := by
    simp [isArgumentChar, d]
  rcases List.mem_append.1 member with first | member
  · rcases signed with rfl | rfl
    · contradiction
    · exact .inl (List.mem_singleton.1 first)
  · right
    rcases List.mem_append.1 member with second | third
    · exact digit (front.row c second)
    · rcases back.row with rfl | ⟨r, rfl, _, row⟩
      · contradiction
      · rcases List.mem_cons.1 third with rfl | place
        · decide
        · exact digit (row c place)

theorem IsPlainNumeral.pointsApart (h : IsPlainNumeral t) : PointsApart t := by
  obtain ⟨sign, whole, places, rfl, signed, front, back⟩ := h
  have first : '.' ∉ sign := by
    rcases signed with rfl | rfl <;> decide
  have second : '.' ∉ whole := fun member => absurd (front.row _ member) (by decide)
  refine .append first (.append second ?_)
  rcases back.row with rfl | ⟨r, rfl, _, row⟩
  · exact fun u v w shape => absurd shape.symm (by simp)
  · exact pointsApart_places row

/-- Texts without letters and parentheses, or the name of infinity behind at most a sign. -/
theorem plain_cases (number : x.isNaN = false) :
    (x.isFinite = true ∧ IsPlainNumeral (plain x)) ∨ plain x = infinityName ∨
      plain x = '-' :: infinityName := by
  by_cases infinite : x.isInf = true
  · rw [plain_of_isInf infinite]
    cases isNegative x with
    | true => exact .inr (.inr rfl)
    | false => exact .inr (.inl rfl)
  · have finite : x.isFinite = true := by
      have size := isNaN_eq_false_iff.1 number
      rw [isInf_iff] at infinite
      exact isFinite_iff.2 (by omega)
    exact .inl ⟨finite, isPlainNumeral_plain finite⟩

theorem chained_plain (number : x.isNaN = false) : Chained (plain x) ∧ PointsApart (plain x) := by
  have apart (t : Text) (none : '.' ∉ t) : PointsApart t := fun u v w shape =>
    absurd (shape ▸ List.mem_append_right u (.head _)) none
  rcases plain_cases number with ⟨_, numeral⟩ | same | same
  · exact ⟨numeral.chained, numeral.pointsApart⟩
  · rw [same]
    refine ⟨?_, apart _ (by decide)⟩
    unfold Chained
    decide
  · rw [same]
    refine ⟨?_, apart _ (by decide)⟩
    unfold Chained
    decide

theorem check_plain (number : x.isNaN = false) : (check (plain x)).outcome = .ok () := by
  have balanced : Balanced (plain x) := by
    have flat := Balanced.nil.append_flat (t := plain x)
      (fun member => absurd (mem_plain member) (by decide))
      fun member => absurd (mem_plain member) (by decide)
    rwa [List.append_nil] at flat
  exact (chained_plain number).1.check (balanced.closed 0 0) (chained_plain number).2

/-- The name of infinity is the only name that a number is written with, and it names no constant. -/
theorem not_gives_plain (number : x.isNaN = false) :
    ¬ ∃ name, IsRun isConstantChar (plain x) name ∧ Constant.builtin.Gives name := by
  have infinity : ¬ Constant.builtin.Gives infinityName := by
    rintro ⟨value, found, _⟩
    have none : Constant.builtin.get? infinityName = none := by decide
    rw [none] at found
    contradiction
  have only {name : Text} (run : IsRun isConstantChar infinityName name) : name = infinityName := by
    rcases (isRun_cons (by decide)).1 run with same | later
    · exact same.trans (by decide)
    · have rest : ['n', 'f', 'i', 'n', 'i', 't', 'y'].dropWhile isConstantChar = [] := by decide
      rw [rest] at later
      exact absurd later not_isRun_nil
  rintro ⟨name, run, given⟩
  rcases plain_cases number with ⟨_, numeral⟩ | same | same
  · obtain ⟨d, r, rfl⟩ := List.exists_cons_of_ne_nil run.nonempty
    obtain ⟨u, v, shape, _⟩ := run.whole
    have constant : isConstantChar d = true := run.row d (.head _)
    have member : d ∈ plain x := by
      rw [shape]
      simp
    have other : isConstantChar d = false := by
      rcases numeral.mem member with rfl | argument
      · decide
      · exact not_isConstantChar_of_isArgumentChar argument
    rw [other] at constant
    contradiction
  · rw [same] at run
    exact infinity (only run ▸ given)
  · rw [same, isRun_cons_of_not (by decide)] at run
    exact infinity (only run ▸ given)

theorem canonical_plain (number : x.isNaN = false) :
    (canonical Constant.builtin (plain x)).outcome = .ok (plain x) := by
  rw [canonical_outcome, replaceConstants_eq_self (not_gives_plain number)]
  exact congrArg Except.ok (chained_plain number).1.canonicalOfNamed_eq_self

theorem written_settled (number : x.isNaN = false) :
    applyLead (valueSign x) (ofMagnitude false (magnitude x)) = if x == 0 then 0 else x := by
  by_cases zero : magnitude x = 0
  · rw [beq_zero_eq zero, if_pos rfl, valueSign, if_pos zero, applyLead_nil, zero,
      Numeral.ofMagnitude_zero]
  · rw [beq_zero_eq_false zero, if_neg Bool.false_ne_true]
    refine written_eq number ?_
    rintro rfl
    exact zero (by decide)

theorem solveExpression_plain (context : Context) (number : x.isNaN = false) :
    (solveExpression context (plain x)).outcome = .ok (if x == 0 then 0 else x) := by
  rw [(flattens_number x).solveExpression]
  simp only [Except.bind, solveSegment_plain number]
  rw [resolveOperand_markValue_plain context number, written_settled number]

/-- What is written for a number reads back as that number. It has no exponent; it denotes the same
rational number as the form with one; and it is an accepted expression in canonical form, whose value
in every context is the number, without the sign of a zero. -/
theorem plain_reads_back (x : Float) (number : x.isNaN = false) :
    (x.isFinite = true → IsPlainNumeral (plain x) ∧
      ∃ q, Numeral.rational? (plain x) = some q ∧ Numeral.rational? (shown x) = some q) ∧
    (x.isInf = true → plain x = signText (isNegative x) ++ infinityName) ∧
    ((x == 0) = true → plain x = ['0']) ∧
    (canonical Constant.builtin (plain x)).outcome = .ok (plain x) ∧
    (check (plain x)).outcome = .ok () ∧
    ∀ context, (solveExpression context (plain x)).outcome = .ok (if x == 0 then 0 else x) := by
  refine ⟨fun finite => ⟨isPlainNumeral_plain finite, rational?_plain finite⟩, plain_of_isInf,
    fun zero => plain_of_zero (beq_zero_iff.1 zero), canonical_plain number, check_plain number,
    fun context => solveExpression_plain context number⟩

/-- A ten-millionth is written without an exponent and reads back. -/
theorem plain_reads_back_small : (1e-7 : Float).isNaN = false ∧
    IsPlainNumeral (plain 1e-7) ∧ (check (plain 1e-7)).outcome = .ok () ∧
    ∀ context, (solveExpression context (plain 1e-7)).outcome = .ok 1e-7 := by
  have number : (1e-7 : Float).isNaN = false := by decide +kernel
  have finite : (1e-7 : Float).isFinite = true := by decide +kernel
  have nonzero : ((1e-7 : Float) == 0) = false := by decide +kernel
  obtain ⟨numeral, _, _, _, checked, value⟩ := plain_reads_back 1e-7 number
  rw [nonzero, if_neg Bool.false_ne_true] at value
  exact ⟨number, (numeral finite).1, checked, value⟩

end Reckoner
