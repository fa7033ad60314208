import Reckoner.Expression.Constants
import Reckoner.Proofs.Outcome
import Reckoner.Proofs.Text.Runs

set_option autoImplicit false

namespace Reckoner

variable {constants : Table Text Constant} {t t' name : Text} {value : Constant} {c : Char}

namespace Table

/-- The table gives every name that it has a number, or nothing. -/
def Numeric (constants : Table Text Constant) : Prop :=
  ∀ name value, constants.get? name = some value → ∃ x, value.number? = .ok x

/-- The table has a value for the name. -/
def Gives (constants : Table Text Constant) (name : Text) : Prop :=
  ∃ value, constants.get? name = some value ∧ value ≠ .unset

/-- The table has a value for the name that is no number. -/
def Spoils (constants : Table Text Constant) (name : Text) : Prop :=
  ∃ value m, constants.get? name = some value ∧ value.number? = .error m

end Table

theorem Table.numeric_of_forall (every : ∀ entry ∈ constants, ∃ x, entry.2.number? = .ok x) :
    constants.Numeric := by
  induction constants with
  | nil => exact nofun
  | cons entry rest ih =>
    obtain ⟨other, kept⟩ := entry
    obtain ⟨first, later⟩ := List.forall_mem_cons.1 every
    intro name value found
    rw [get?_cons] at found
    split at found
    · cases found
      exact first
    · exact ih later name value found

theorem Constant.numeric_builtin : builtin.Numeric := by
  apply Table.numeric_of_forall
  simp only [builtin, List.forall_mem_cons]
  exact ⟨⟨_, rfl⟩, ⟨_, rfl⟩, ⟨_, rfl⟩, ⟨_, rfl⟩, nofun⟩

theorem constantText_of_not_gives (none : ¬ constants.Gives name) :
    constantText constants name = .ok name := by
  unfold constantText
  cases found : constants.get? name with
  | none => rfl
  | some value =>
    have unset : value = .unset := by
      by_contra given
      exact none ⟨value, found, given⟩
    rw [unset]
    rfl

/-- The text of a value is in parentheses. -/
theorem constantText_of_gives (given : constants.Gives name)
    (replaced : constantText constants name = .ok t) : ∃ s, t = '(' :: s := by
  obtain ⟨value, found, set⟩ := given
  unfold constantText at replaced
  simp only [found] at replaced
  obtain ⟨x, number, rest⟩ := bind_eq_ok replaced
  cases x with
  | none => exact absurd (Constant.eq_unset_of_number? number) set
  | some x =>
    cases rest
    exact ⟨_, rfl⟩

theorem constantText_eq_error_iff :
    (∃ m, constantText constants name = .error m) ↔ constants.Spoils name := by
  unfold constantText Table.Spoils
  cases found : constants.get? name with
  | none => simp
  | some value =>
    cases number : value.number? with
    | error m => simp [number, bind, Except.bind]
    | ok x => cases x <;> simp [number, bind, Except.bind, pure, Except.pure]

theorem replaceConstants_eq_self
    (none : ¬ ∃ name, IsRun isConstantChar t name ∧ constants.Gives name) :
    replaceConstants constants t = .ok t := by
  fun_induction replaceConstants constants t with
  | case1 => rfl
  | case2 c r inside ih =>
    have first := constantText_of_not_gives fun given =>
      none ⟨c :: r.takeWhile isConstantChar, (isRun_cons inside).2 (.inl rfl), given⟩
    have rest := ih fun ⟨name, run, given⟩ => none ⟨name, (isRun_cons inside).2 (.inr run), given⟩
    rw [first, rest]
    exact congrArg (fun t => Except.ok (c :: t)) List.takeWhile_append_dropWhile
  | case3 c r other ih =>
    have outside : isConstantChar c = false := by simpa using other
    have rest := ih fun ⟨name, run, given⟩ => none ⟨name, (isRun_cons_of_not outside).2 run, given⟩
    rw [rest]
    rfl

theorem count_run {r : Text} (inside : isConstantChar c = true) :
    (c :: r).count '(' = (r.dropWhile isConstantChar).count '(' := by
  have flat : ∀ d ∈ c :: r.takeWhile isConstantChar, d ≠ '(' := by
    rintro d member rfl
    have constant : isConstantChar '(' = true := by
      rcases List.mem_cons.1 member with rfl | later
      · exact inside
      · exact List.all_eq_true.1 List.all_takeWhile _ later
    contradiction
  have whole : c :: r = (c :: r.takeWhile isConstantChar) ++ r.dropWhile isConstantChar := by
    rw [List.cons_append, List.takeWhile_append_dropWhile]
  rw [whole, List.count_append, List.count_eq_zero.2 fun member => flat _ member rfl, Nat.zero_add]

/-- What belongs to no name stays. -/
theorem mem_replaceConstants (other : isConstantChar c = false) (member : c ∈ t)
    (replaced : replaceConstants constants t = .ok t') : c ∈ t' := by
  fun_induction replaceConstants constants t generalizing t' with
  | case1 => exact absurd member List.not_mem_nil
  | case2 d r inside ih =>
    obtain ⟨value, first, replaced⟩ := bind_eq_ok replaced
    obtain ⟨rest, second, same⟩ := bind_eq_ok replaced
    cases same
    apply List.mem_append_right
    apply ih _ second
    have behind : c ∈ r := by
      rcases List.mem_cons.1 member with rfl | later
      · rw [inside] at other
        contradiction
      · exact later
    rw [← List.takeWhile_append_dropWhile (p := isConstantChar) (l := r)] at behind
    rcases List.mem_append.1 behind with name | later
    · have constant := List.all_eq_true.1 List.all_takeWhile _ name
      rw [other] at constant
      contradiction
    · exact later
  | case3 d r outside ih =>
    obtain ⟨rest, second, same⟩ := bind_eq_ok replaced
    cases same
    rcases List.mem_cons.1 member with rfl | later
    · exact List.mem_cons_self
    · exact List.mem_cons_of_mem _ (ih later second)

/-- Where values are put in, parentheses are added. -/
theorem count_replaceConstants (replaced : replaceConstants constants t = .ok t') :
    t.count '(' ≤ t'.count '(' ∧
      ((∃ name, IsRun isConstantChar t name ∧ constants.Gives name) →
        t.count '(' < t'.count '(') := by
  fun_induction replaceConstants constants t generalizing t' with
  | case1 =>
    cases replaced
    exact ⟨Nat.le_refl _, fun ⟨name, run, _⟩ => absurd run not_isRun_nil⟩
  | case2 c r inside ih =>
    obtain ⟨value, first, replaced⟩ := bind_eq_ok replaced
    obtain ⟨rest, second, same⟩ := bind_eq_ok replaced
    cases same
    obtain ⟨keeps, adds⟩ := ih second
    rw [count_run inside, List.count_append]
    refine ⟨by omega, fun ⟨name, run, given⟩ => ?_⟩
    rcases (isRun_cons inside).1 run with rfl | later
    · obtain ⟨s, rfl⟩ := constantText_of_gives given first
      rw [List.count_cons_self]
      omega
    · have more := adds ⟨name, later, given⟩
      omega
  | case3 c r other ih =>
    obtain ⟨rest, second, same⟩ := bind_eq_ok replaced
    cases same
    obtain ⟨keeps, adds⟩ := ih second
    have outside : isConstantChar c = false := by simpa using other
    simp only [List.count_cons, isRun_cons_of_not outside]
    exact ⟨Nat.add_le_add_right keeps _, fun given => Nat.add_lt_add_right (adds given) _⟩

/-- The constants of a text cannot be replaced if one of its runs names a value that is no number. -/
theorem replaceConstants_eq_error_iff : (∃ m, replaceConstants constants t = .error m) ↔
    ∃ name, IsRun isConstantChar t name ∧ constants.Spoils name := by
  fun_induction replaceConstants constants t with
  | case1 => simp [not_isRun_nil]
  | case2 c r inside ih =>
    have first := @constantText_eq_error_iff constants (c :: r.takeWhile isConstantChar)
    simp only [isRun_cons inside, or_and_right, exists_or, exists_eq_left, ← ih, ← first]
    cases constantText constants (c :: r.takeWhile isConstantChar) with
    | error m => simp [bind, Except.bind]
    | ok value =>
      cases replaceConstants constants (r.dropWhile isConstantChar) <;>
        simp [bind, Except.bind, pure, Except.pure]
  | case3 c r other ih =>
    have outside : isConstantChar c = false := by simpa using other
    simp only [isRun_cons_of_not outside, ← ih]
    cases replaceConstants constants r <;> simp [bind, Except.bind, pure, Except.pure]

theorem Table.Numeric.replaceConstants (numeric : constants.Numeric) (t : Text) :
    ∃ t', Reckoner.replaceConstants constants t = .ok t' := by
  cases replaced : Reckoner.replaceConstants constants t with
  | ok t' => exact ⟨t', rfl⟩
  | error m =>
    obtain ⟨name, _, value, m', found, failed⟩ := replaceConstants_eq_error_iff.1 ⟨m, replaced⟩
    obtain ⟨x, number⟩ := numeric name value found
    rw [number] at failed
    contradiction

end Reckoner
