import Reckoner.Proofs.Session.Calls
import Reckoner.Settings.Basic

set_option autoImplicit false

namespace Reckoner

variable {setup : Setup} {session : Session} {bindings : Bindings} {raw t : Text} {x : Float}
  {places : Int} {m : Mishap}

theorem Display.round_eq_error (failed : round places x = .error m) : m = .roundedTooLarge := by
  unfold round at failed
  split at failed
  · split at failed
    · contradiction
    · cases failed
      rfl
  · contradiction

namespace Setup

def Spoils (setup : Setup) (raw : Text) : Prop :=
  ∃ name, IsRun isConstantChar raw name ∧ setup.constants.Spoils name

def RoundsTooFar (setup : Setup) (bindings : Bindings) (raw : Text) : Prop :=
  ∃ t x, (setup.checked raw).outcome = .ok t ∧ (setup.execute bindings raw t).outcome = .ok x ∧
    Display.round setup.style.places x = .error .roundedTooLarge

/-- Only to places before the point a value is rounded too far. -/
theorem RoundsTooFar.places_neg (h : setup.RoundsTooFar bindings raw) : setup.style.places < 0 := by
  obtain ⟨t, x, _, _, failed⟩ := h
  by_contra nonnegative
  obtain ⟨y, rounded, _⟩ := Display.exists_round (Int.not_lt.1 nonnegative) x
  rw [rounded] at failed
  contradiction

theorem spoils_iff :
    setup.Spoils raw ↔ ∃ m, (setup.checked raw).outcome = .error (.mishap m) :=
  unread_iff.symm

theorem not_spoils_of_rejected {r : Report}
    (checked : (setup.checked raw).outcome = .error (.fault r)) : ¬ setup.Spoils raw := by
  rw [spoils_iff, checked]
  exact nofun

theorem not_spoils_of_checked (checked : (setup.checked raw).outcome = .ok t) :
    ¬ setup.Spoils raw := by
  rw [spoils_iff, checked]
  exact nofun

/-- Rounding has no other mishap. -/
theorem roundsTooFar_iff (checked : (setup.checked raw).outcome = .ok t)
    (executed : (setup.execute bindings raw t).outcome = .ok x) :
    setup.RoundsTooFar bindings raw ↔ ∃ m, Display.round setup.style.places x = .error m := by
  constructor
  · rintro ⟨t', x', checked', executed', failed⟩
    rw [checked] at checked'
    cases checked'
    rw [executed] at executed'
    cases executed'
    exact ⟨_, failed⟩
  · rintro ⟨m, failed⟩
    rw [Display.round_eq_error failed] at failed
    exact ⟨t, x, checked, executed, failed⟩

theorem not_roundsTooFar_of_rejected {refusal : Refusal}
    (checked : (setup.checked raw).outcome = .error refusal) :
    ¬ setup.RoundsTooFar bindings raw := by
  rintro ⟨t, x, checked', _⟩
  rw [checked] at checked'
  contradiction

theorem not_roundsTooFar_of_failed {r : Report} (checked : (setup.checked raw).outcome = .ok t)
    (executed : (setup.execute bindings raw t).outcome = .error r) :
    ¬ setup.RoundsTooFar bindings raw := by
  rintro ⟨t', x, checked', executed', _⟩
  rw [checked] at checked'
  cases checked'
  rw [executed] at executed'
  contradiction

end Setup

namespace Session

/-- A check has an answer unless the expression names a constant that is no number. -/
theorem check_iff (session : Session) (raw : Text) :
    (∃ passes, (session.check raw).outcome = .ok passes) ↔ ¬ session.setup.Spoils raw := by
  rw [Setup.spoils_iff]
  unfold check
  cases checked : (session.setup.checked raw).outcome with
  | ok t => simp [checked]
  | error refusal => cases refusal <;> simp [checked]

theorem solve_of_evaluated {e : Evaluation}
    (evaluated : (session.setup.evaluate bindings raw).outcome = .ok e)
    (told : e.value = none → e.fault ≠ none) :
    ∃ value, (session.solve bindings raw).outcome = .ok value ∧
      (value = none → (session.solve bindings raw).session.memory.fault ≠ none) := by
  unfold solve
  simp only [evaluated]
  exact ⟨e.value, rfl, told⟩

theorem solve_of_mishap (evaluated : (session.setup.evaluate bindings raw).outcome = .error m) :
    ¬ ∃ value, (session.solve bindings raw).outcome = .ok value ∧
      (value = none → (session.solve bindings raw).session.memory.fault ≠ none) := by
  rintro ⟨value, solved, _⟩
  unfold solve at solved
  simp only [evaluated] at solved
  contradiction

/-- A solution gives a value or leaves a fault, unless the expression names a constant that is no
number or has a value that is rounded too far. -/
theorem solve_iff (session : Session) (bindings : Bindings) (raw : Text) :
    (∃ value, (session.solve bindings raw).outcome = .ok value ∧
      (value = none → (session.solve bindings raw).session.memory.fault ≠ none)) ↔
      ¬ session.setup.Spoils raw ∧ ¬ session.setup.RoundsTooFar bindings raw := by
  cases session.setup.ends bindings raw with
  | unread m checked =>
    have evaluated : (session.setup.evaluate bindings raw).outcome = .error m := by
      unfold Setup.evaluate
      simp only [checked]
    have spoils : session.setup.Spoils raw := Setup.spoils_iff.2 ⟨m, checked⟩
    exact iff_of_false (solve_of_mishap evaluated) fun both => both.1 spoils
  | rejected r checked equation family =>
    have concur : session.Concur bindings raw _ false :=
      concur_of_rejected checked equation family
    exact iff_of_true (solve_of_evaluated concur.evaluate nofun)
      ⟨Setup.not_spoils_of_rejected checked, Setup.not_roundsTooFar_of_rejected checked⟩
  | failed t r checked executed equation family =>
    have concur : session.Concur bindings raw _ true :=
      concur_of_failed checked executed equation family
    exact iff_of_true (solve_of_evaluated concur.evaluate fun _ => nofun)
      ⟨Setup.not_spoils_of_checked checked, Setup.not_roundsTooFar_of_failed checked executed⟩
  | valued t x checked executed =>
    have read := Setup.not_spoils_of_checked checked
    rw [Setup.roundsTooFar_iff checked executed]
    cases rounded : Display.round session.setup.style.places x with
    | error m =>
      have evaluated : (session.setup.evaluate bindings raw).outcome = .error m := by
        unfold Setup.evaluate
        simp only [checked, executed, rounded]
        rfl
      exact iff_of_false (solve_of_mishap evaluated) fun both => both.2 ⟨m, rfl⟩
    | ok y =>
      have evaluated : (session.setup.evaluate bindings raw).outcome =
          .ok ⟨some y, some t, none⟩ := by
        unfold Setup.evaluate
        simp only [checked, executed, rounded]
        rfl
      exact iff_of_true (solve_of_evaluated evaluated nofun) ⟨read, nofun⟩

end Session

/-- Settings of the usual sorts: places are a whole number, and constants are numbers, texts and
nulls. -/
structure Settings.Ordinary (settings : Settings) : Prop where
  places : ∀ json, settings.value? placesKey = some json → ∃ n, json = .integer n
  constants : ∀ json, settings.value? constantsKey = some json → ∃ members,
    json = .object members ∧ ∀ entry ∈ members, entry.2 = .null ∨ (∃ x, entry.2 = .number x) ∨
      (∃ n, entry.2 = .integer n) ∨ ∃ t, entry.2 = .text t

/-- Such settings can be set up. -/
theorem Settings.Ordinary.exists_setup {settings : Settings} (ordinary : settings.Ordinary) :
    ∃ setup, settings.setup .none = .ok setup := by
  have places : ∃ n, settings.places = .ok n := by
    unfold Settings.places
    cases found : settings.value? placesKey with
    | none => exact ⟨12, rfl⟩
    | some json =>
      obtain ⟨n, rfl⟩ := ordinary.places json found
      exact ⟨n, rfl⟩
  have constants : ∃ table,
      Settings.constants ((settings.value? constantsKey).getD .null) = .ok table := by
    unfold Settings.constants
    cases found : settings.value? constantsKey with
    | none => exact ⟨_, rfl⟩
    | some json =>
      obtain ⟨members, rfl, _⟩ := ordinary.constants json found
      rw [Option.getD_some]
      split
      · exact ⟨_, rfl⟩
      · exact ⟨_, rfl⟩
  obtain ⟨n, places⟩ := places
  obtain ⟨table, constants⟩ := constants
  have given : (Overrides.none.constants <|> settings.value? constantsKey) =
      settings.value? constantsKey := rfl
  unfold Settings.setup
  simp only [places, given, constants]
  exact ⟨_, rfl⟩

/-- With ordinary settings a check has an answer, and a solution gives a value or leaves a fault, unless
the expression names a constant that is no number or, for the solution, has a value that is rounded
beyond all doubles; and only places before the point can do that. -/
theorem Settings.Ordinary.calls_end_iff {settings : Settings} (ordinary : settings.Ordinary) :
    ∃ setup, settings.setup .none = .ok setup ∧ ∀ session : Session, session.setup = setup →
      ∀ bindings raw,
        ((∃ passes, (session.check raw).outcome = .ok passes) ↔ ¬ setup.Spoils raw) ∧
        ((∃ value, (session.solve bindings raw).outcome = .ok value ∧
            (value = none → (session.solve bindings raw).session.memory.fault ≠ none)) ↔
          ¬ setup.Spoils raw ∧ ¬ setup.RoundsTooFar bindings raw) ∧
        (setup.RoundsTooFar bindings raw → setup.style.places < 0) := by
  obtain ⟨setup, made⟩ := ordinary.exists_setup
  refine ⟨setup, made, ?_⟩
  rintro session rfl bindings raw
  exact ⟨session.check_iff raw, session.solve_iff bindings raw, Setup.RoundsTooFar.places_neg⟩

/-- A value in parentheses has itself as its value. -/
theorem solveExpression_groupText (context : Context) (number : x.isNaN = false) :
    (solveExpression context (groupText x)).outcome =
      .ok (applyLead (valueSign x) (Double.ofMagnitude false (Double.magnitude x))) := by
  have value := denotes_markValue_plain context number
  apply solveExpression_of_denotes (flattens_plain number) _ isLead_nil value
  intro done t ends
  exact value.tame.solveCalls ends done

def kName : Text := ['k']

def word : Text := ['a', 'b', 'c']

/-- Settings with a constant that is a text and no numeral. -/
def wordySettings : Settings :=
  [(.text Settings.constantsKey, .object [(kName, .text word)])]

def largest : Float := Double.ofMagnitude false (Double.infinityBits - 1)

/-- Settings with the largest double as a constant, and with results to 308 places before the point. -/
def farSettings : Settings :=
  [(.text Settings.placesKey, .integer (-308)),
    (.text Settings.constantsKey, .object [(kName, .number largest)])]

theorem ordinary_wordySettings : wordySettings.Ordinary := by
  constructor
  · intro json found
    have none : wordySettings.value? Settings.placesKey = none := rfl
    rw [none] at found
    contradiction
  · intro json found
    have named : wordySettings.value? Settings.constantsKey =
        some (.object [(kName, .text word)]) := rfl
    rw [named] at found
    cases found
    refine ⟨_, rfl, fun entry member => ?_⟩
    rw [List.mem_singleton.1 member]
    exact .inr (.inr (.inr ⟨_, rfl⟩))

theorem ordinary_farSettings : farSettings.Ordinary := by
  constructor
  · intro json found
    have named : farSettings.value? Settings.placesKey = some (.integer (-308)) := rfl
    rw [named] at found
    cases found
    exact ⟨_, rfl⟩
  · intro json found
    have named : farSettings.value? Settings.constantsKey =
        some (.object [(kName, .number largest)]) := rfl
    rw [named] at found
    cases found
    refine ⟨_, rfl, fun entry member => ?_⟩
    rw [List.mem_singleton.1 member]
    exact .inr (.inl ⟨_, rfl⟩)

def namesK (places : Int) (value : Constant) : Setup :=
  ⟨.degrees, false, ⟨places, false⟩, Constant.builtin.overlay [(['k'], value)]⟩

theorem setup_wordySettings :
    wordySettings.setup .none = .ok (namesK 12 (.text word)) := rfl

theorem setup_farSettings : farSettings.setup .none = .ok (namesK (-308) (.number largest)) := rfl

theorem spoils_wordySettings : (namesK 12 (.text word)).Spoils ['k'] :=
  ⟨['k'], ⟨by decide, by decide, [], [], rfl, nofun, nofun⟩, .text word,
    .notANumber word, by decide +kernel, by decide +kernel⟩

theorem checked_farSettings : ((namesK (-308) (.number largest)).checked ['k']).outcome =
    .ok (groupText largest) := by
  decide +kernel

theorem roundsTooFar_farSettings :
    (namesK (-308) (.number largest)).RoundsTooFar [] ['k'] := by
  have value : applyLead (valueSign largest) (Double.ofMagnitude false (Double.magnitude largest)) =
      largest := by decide +kernel
  refine ⟨groupText largest, largest, checked_farSettings, ?_, by decide +kernel⟩
  unfold Setup.execute
  rw [Traced.outcome_handle, solveExpression_groupText _ (by decide +kernel), value]

/-- Neither a check nor a solution comes to an end on the name of a constant that is no number, and a
solution does not on the name of the largest double, where that is rounded up. -/
theorem calls_end_samples :
    (∃ setup, wordySettings.setup .none = .ok setup ∧
      (¬ ∃ passes, ((Session.start setup).check ['k']).outcome = .ok passes) ∧
      ¬ ∃ value, ((Session.start setup).solve [] ['k']).outcome = .ok value ∧
        (value = none → ((Session.start setup).solve [] ['k']).session.memory.fault ≠ none)) ∧
    ∃ setup, farSettings.setup .none = .ok setup ∧
      (∃ passes, ((Session.start setup).check ['k']).outcome = .ok passes) ∧
      ¬ ∃ value, ((Session.start setup).solve [] ['k']).outcome = .ok value ∧
        (value = none → ((Session.start setup).solve [] ['k']).session.memory.fault ≠ none) := by
  constructor
  · obtain ⟨setup, made, ends⟩ := ordinary_wordySettings.calls_end_iff
    rw [setup_wordySettings] at made
    cases made
    obtain ⟨check, solve, _⟩ := ends (Session.start _) rfl [] ['k']
    exact ⟨_, setup_wordySettings, fun answered => check.1 answered spoils_wordySettings,
      fun solved => (solve.1 solved).1 spoils_wordySettings⟩
  · obtain ⟨setup, made, ends⟩ := ordinary_farSettings.calls_end_iff
    rw [setup_farSettings] at made
    cases made
    obtain ⟨check, solve, _⟩ := ends (Session.start _) rfl [] ['k']
    refine ⟨_, setup_farSettings, check.2 fun spoils => ?_,
      fun solved => (solve.1 solved).2 roundsTooFar_farSettings⟩
    obtain ⟨m, unread⟩ := Setup.unread_iff.2 spoils
    rw [checked_farSettings] at unread
    contradiction

end Reckoner
