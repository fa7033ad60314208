import Reckoner.CommandLine.Run
import Reckoner.Proofs.Expression.Repeated
import Reckoner.Proofs.Json.Scalars
import Reckoner.Proofs.Session.Calls

set_option autoImplicit false

namespace Reckoner

variable {session : Session} {bindings : Bindings} {raw text : Text} {x : Float} {c : Char}
  {style : Display.Style} {places : Int} {r : Report}

namespace Display

/-- The characters of results: those of numbers, the stroke of a fraction and a space. -/
def isResultChar (c : Char) : Bool := isSign c || isOperandChar c || c == '/' || c == ' '

theorem isResultChar_of_mem_toString {n : Int} (member : c ∈ (toString n).toList) :
    isResultChar c = true := by
  rw [Json.toList_toString] at member
  rcases List.mem_append.1 member with sign | digit
  · have minus : c = '-' := by
      unfold Double.signText at sign
      split at sign
      · exact List.mem_singleton.1 sign
      · exact absurd sign List.not_mem_nil
    rw [minus]
    rfl
  · have digit := Nat.isDigit_of_mem_toDigits (by decide) (by decide) digit
    simp [isResultChar, isOperandChar, digit]

theorem isResultChar_of_mem_mixedText {n : Int} {d : Nat} (member : c ∈ mixedText n d) :
    isResultChar c = true := by
  have number (m : Int) (inside : c ∈ (toString m).toList) : isResultChar c = true :=
    isResultChar_of_mem_toString inside
  have ratio (m : Int) (inside : c ∈ (toString m ++ "/" ++ toString d).toList) :
      isResultChar c = true := by
    rw [String.toList_append, String.toList_append, List.mem_append, List.mem_append] at inside
    rcases inside with (above | stroke) | below
    · exact number m above
    · rw [List.mem_singleton.1 stroke]
      rfl
    · exact number d below
  have mixed (m k : Int) (inside : c ∈ (toString m ++ " " ++ (toString k ++ "/" ++ toString d)).toList) :
      isResultChar c = true := by
    rw [String.toList_append, String.toList_append, List.mem_append, List.mem_append] at inside
    rcases inside with (whole | space) | rest
    · exact number m whole
    · rw [List.mem_singleton.1 space]
      rfl
    · exact ratio k rest
  unfold mixedText at member
  dsimp only at member
  split at member
  · split at member
    · exact number _ member
    · split at member
      · exact mixed _ _ member
      · exact mixed _ _ member
  · exact ratio _ member

theorem isResultChar_of_mem_plain (member : c ∈ Double.plain x) : isResultChar c = true := by
  unfold isResultChar
  rcases mem_plain member with sign | operand
  · simp [sign]
  · simp [operand]

theorem fraction_eq_some {t : Text} (shown : fraction places x = .ok (some t)) :
    ∃ n d, t = mixedText n d := by
  unfold fraction at shown
  split at shown
  · contradiction
  · split at shown
    · contradiction
    · obtain ⟨back, _, same⟩ := bind_eq_ok shown
      split at same
      · exact ⟨_, _, (Option.some.inj (Except.ok.inj same)).symm⟩
      · have none := Except.ok.inj same
        contradiction

/-- A result consists of such characters. -/
theorem isResultChar_of_mem_result {t : Text} {rounded : Bool}
    (shown : result style x = .ok (t, rounded)) (member : c ∈ t) : isResultChar c = true := by
  unfold result at shown
  split at shown
  · obtain ⟨rfl, _⟩ := Prod.mk.inj (Except.ok.inj shown)
    exact isResultChar_of_mem_plain member
  · obtain ⟨y, _, shown⟩ := bind_eq_ok shown
    dsimp only at shown
    split at shown
    · obtain ⟨fraction, asked, shown⟩ := bind_eq_ok shown
      cases fraction with
      | none =>
        obtain ⟨rfl, _⟩ := Prod.mk.inj (Except.ok.inj shown)
        exact isResultChar_of_mem_plain member
      | some t' =>
        obtain ⟨rfl, _⟩ := Prod.mk.inj (Except.ok.inj shown)
        obtain ⟨n, d, rfl⟩ := fraction_eq_some asked
        exact isResultChar_of_mem_mixedText member
    · obtain ⟨rfl, _⟩ := Prod.mk.inj (Except.ok.inj shown)
      exact isResultChar_of_mem_plain member

/-- A result line is a sign, a space and a result. -/
theorem line_eq_ok (shown : line style x = .ok text) : ∃ sign t, text = sign :: ' ' :: t ∧
    (sign = '=' ∨ sign = '≈') ∧ ∀ c ∈ t, isResultChar c = true := by
  unfold line at shown
  obtain ⟨⟨t, rounded⟩, result, same⟩ := bind_eq_ok shown
  cases same
  refine ⟨_, t, rfl, ?_, fun c member => isResultChar_of_mem_result result member⟩
  cases rounded with
  | false => exact .inl rfl
  | true => exact .inr rfl

end Display

namespace Session

/-- A calculated text is the line of a value, and the expression has passed the check. -/
theorem calculate_eq_ok (calculated : (session.calculate bindings raw).outcome = .ok text) :
    ∃ t x, (session.setup.checked raw).outcome = .ok t ∧
      Display.line session.setup.style x = .ok text := by
  unfold calculate at calculated
  dsimp only at calculated
  split at calculated
  · contradiction
  next t checked =>
    split at calculated
    · contradiction
    next x executed =>
      split at calculated
      · contradiction
      · exact ⟨t, x, checked, mapError_eq_ok.1 calculated⟩

end Session

/-- There is no line end in an expression that passes the check. -/
theorem lineEnd_not_mem {setup : Setup} {t : Text} (checked : (setup.checked raw).outcome = .ok t) :
    '\n' ∉ raw := by
  intro member
  obtain ⟨written, passed⟩ := Setup.checked_eq_ok_iff.1 checked
  have inside := mem_canonical_of_isKept (by decide) member written
  have canonical := isCanonicalChar_of_check passed _ inside
  contradiction

namespace CommandLine

variable {manner : Manner} {emissions : List Emission}

def written (emissions : List Emission) : Text :=
  emissions.flatMap fun
    | .prompt => ['>', ' ']
    | .out s => s.toList ++ ['\n']
    | .err _ | .copied _ => []

def reported (emissions : List Emission) : Text :=
  emissions.flatMap fun
    | .err s => s.toList ++ ['\n']
    | .prompt | .out _ | .copied _ => []

/-- A single line with its end. -/
def IsLine (t : Text) : Prop := ∃ line, t = line ++ ['\n'] ∧ '\n' ∉ line

theorem written_copyResult (setup : Setup) (manner : Manner) (t : Text) :
    written (copyResult setup manner t) = [] := by
  unfold copyResult
  split
  · split <;> rfl
  · rfl

theorem reported_copyResult (setup : Setup) (silent : manner.copy = false) (t : Text) :
    reported (copyResult setup manner t) = [] := by
  unfold copyResult
  rw [silent]
  rfl

theorem written_resultLines (setup : Setup) (manner : Manner) (expression result : Text) :
    written (resultLines setup manner expression result) =
      (if manner.showEquation then expression ++ ' ' :: result else result) ++ ['\n'] := by
  have copied := written_copyResult setup manner (result.drop 2)
  unfold written resultLines at *
  rw [List.flatMap_cons, copied, List.append_nil]
  dsimp only
  rw [String.toList_ofList]

theorem reported_resultLines (setup : Setup) (silent : manner.copy = false)
    (expression result : Text) : reported (resultLines setup manner expression result) = [] :=
  reported_copyResult setup silent (result.drop 2)

/-- A calculated text is put out as a single line. -/
theorem isLine_resultLines (calculated : (session.calculate bindings raw).outcome = .ok text)
    (setup : Setup) (manner : Manner) : IsLine (written (resultLines setup manner raw text)) := by
  obtain ⟨t, x, checked, shown⟩ := Session.calculate_eq_ok calculated
  obtain ⟨sign, result, rfl, relation, row⟩ := Display.line_eq_ok shown
  have flat : '\n' ∉ sign :: ' ' :: result := by
    intro member
    rcases List.mem_cons.1 member with same | member
    · rcases relation with rfl | rfl <;> contradiction
    · rcases List.mem_cons.1 member with same | member
      · contradiction
      · have foreign := row _ member
        contradiction
  rw [written_resultLines]
  refine ⟨_, rfl, ?_⟩
  split
  · intro member
    rcases List.mem_append.1 member with inside | behind
    · exact lineEnd_not_mem checked inside
    · rcases List.mem_cons.1 behind with same | inside
      · contradiction
      · exact flat inside
  · exact flat

theorem exitCode_eq_one_iff : exitCode r = 1 ↔ r.family = .syntactic := by
  unfold exitCode
  cases r.family <;> decide

theorem exitCode_eq_two_iff : exitCode r = 2 ↔ r.family = .execution := by
  unfold exitCode
  cases r.family <;> decide

theorem exitCode_eq_three_iff : exitCode r = 3 ↔ r.family = .other := by
  unfold exitCode
  cases r.family <;> decide

theorem exitCode_ne_zero : exitCode r ≠ 0 := by
  unfold exitCode
  cases r.family <;> decide

theorem evaluateOnce_of_ok (quiet : session.setup.debug = false) (manner : Manner)
    (calculated : (session.calculate bindings raw).outcome = .ok text) :
    evaluateOnce session manner bindings raw =
      (resultLines session.setup manner raw text, .exit 0) := by
  unfold evaluateOnce logLines
  simp only [calculated, quiet]
  rfl

theorem evaluateOnce_of_fault (quiet : session.setup.debug = false) (manner : Manner)
    (failed : (session.calculate bindings raw).outcome = .error (.fault r)) :
    evaluateOnce session manner bindings raw = ([.err (reportLines r)], .exit (exitCode r)) := by
  unfold evaluateOnce logLines
  simp only [failed, quiet]
  rfl

/-- A check ends with zero if the expression passes, and otherwise with the code of the fault. -/
theorem checkOnce_of_concur {memory : Memory} {passes : Bool}
    (concur : session.Concur bindings raw memory passes) :
    (checkOnce session raw).2 =
      .exit (if passes then 0 else (memory.fault.map exitCode).getD 0) := by
  unfold checkOnce
  simp only [concur.check.1, concur.check.2]
  cases passes with
  | true => rfl
  | false => cases memory.fault <;> rfl

/-- What is told about an expression, in the exit code and on the two channels, where this is how a
run with it ends; and that a check has the code one just when an evaluation has it, and else zero. -/
structure Tells (session : Session) (manner : Manner) (bindings : Bindings) (expression : Text) :
    Prop where
  ends : ∃ code ≤ 3, (evaluateOnce session manner bindings expression).2 = .exit code
  zero : (evaluateOnce session manner bindings expression).2 = .exit 0 ↔
    ∃ text, (session.calculate bindings expression).outcome = .ok text
  one : (evaluateOnce session manner bindings expression).2 = .exit 1 ↔
    ∃ r, (session.calculate bindings expression).outcome = .error (.fault r) ∧ r.family = .syntactic
  two : (evaluateOnce session manner bindings expression).2 = .exit 2 ↔
    ∃ r, (session.calculate bindings expression).outcome = .error (.fault r) ∧ r.family = .execution
  three : (evaluateOnce session manner bindings expression).2 = .exit 3 ↔
    ∃ r, (session.calculate bindings expression).outcome = .error (.fault r) ∧ r.family = .other
  line : (evaluateOnce session manner bindings expression).2 = .exit 0 →
    IsLine (written (evaluateOnce session manner bindings expression).1) ∧
      (manner.copy = false → reported (evaluateOnce session manner bindings expression).1 = [])
  silent : (evaluateOnce session manner bindings expression).2 ≠ .exit 0 →
    written (evaluateOnce session manner bindings expression).1 = []
  check : (checkOnce session expression).2 =
    .exit (if (evaluateOnce session manner bindings expression).2 = .exit 1 then 1 else 0)

theorem tells_of_ok (quiet : session.setup.debug = false) (manner : Manner)
    (calculated : (session.calculate bindings raw).outcome = .ok text)
    (passes : (checkOnce session raw).2 = .exit 0) : Tells session manner bindings raw := by
  have once := evaluateOnce_of_ok quiet manner calculated
  have code {n : Nat} (other : 0 ≠ n) :
      ¬ (evaluateOnce session manner bindings raw).2 = .exit n := by
    rw [once, Ending.exit.injEq]
    exact other
  have none (family : Fault.Family) :
      ¬ ∃ r, (session.calculate bindings raw).outcome = .error (.fault r) ∧ r.family = family := by
    intro ⟨r, failed, _⟩
    rw [calculated] at failed
    contradiction
  constructor
  · exact ⟨0, by omega, by rw [once]⟩
  · exact iff_of_true (by rw [once]) ⟨text, calculated⟩
  · exact iff_of_false (code (by decide)) (none _)
  · exact iff_of_false (code (by decide)) (none _)
  · exact iff_of_false (code (by decide)) (none _)
  · intro _
    rw [once]
    exact ⟨isLine_resultLines calculated session.setup manner, fun copies =>
      reported_resultLines session.setup copies raw text⟩
  · intro failed
    rw [once] at failed
    contradiction
  · rw [passes, once]
    rfl

theorem tells_of_fault (quiet : session.setup.debug = false) (manner : Manner)
    (failed : (session.calculate bindings raw).outcome = .error (.fault r))
    (checked : (checkOnce session raw).2 = .exit (if exitCode r = 1 then 1 else 0)) :
    Tells session manner bindings raw := by
  have once := evaluateOnce_of_fault quiet manner failed
  have code (n : Nat) : (evaluateOnce session manner bindings raw).2 = .exit n ↔ exitCode r = n := by
    rw [once, Ending.exit.injEq]
  have told (family : Fault.Family) : (∃ r, (session.calculate bindings raw).outcome =
      .error (.fault r) ∧ r.family = family) ↔ r.family = family := by
    simp [failed]
  constructor
  · refine ⟨exitCode r, ?_, by rw [once]⟩
    unfold exitCode
    cases r.family <;> decide
  · rw [code]
    refine iff_of_false exitCode_ne_zero fun ⟨text, calculated⟩ => ?_
    rw [failed] at calculated
    contradiction
  · rw [code, told, exitCode_eq_one_iff]
  · rw [code, told, exitCode_eq_two_iff]
  · rw [code, told, exitCode_eq_three_iff]
  · intro zero
    exact absurd ((code 0).1 zero) exitCode_ne_zero
  · intro _
    rw [once]
    rfl
  · simp only [checked, code]

/-- Where all constants are numbers, no places before the point are rounded away and there is no log,
the exit code tells of every expression whether it has a value and where else its way ends; a value is
put out as one line and everything else on the channel of errors; and a check agrees with the
evaluation. -/
theorem evaluateOnce_tells (session : Session) (numeric : session.setup.constants.Numeric)
    (nonnegative : 0 ≤ session.setup.style.places) (quiet : session.setup.debug = false)
    (manner : Manner) (bindings : Bindings) (expression : Text) :
    Tells session manner bindings expression := by
  obtain ⟨memory, passes, concur⟩ := Session.exists_concur numeric nonnegative bindings expression
  have checked := checkOnce_of_concur concur
  have family := concur.family
  cases fault : memory.fault with
  | none =>
    obtain ⟨text, calculated⟩ := concur.text fault
    have passed : passes = true := by
      rw [← Bool.not_eq_false, family, fault]
      intro ⟨r, same, _⟩
      contradiction
    rw [passed] at checked
    exact tells_of_ok quiet manner calculated checked
  | some r =>
    apply tells_of_fault quiet manner (concur.error r fault)
    rw [fault] at checked family
    rw [checked]
    cases passes with
    | true =>
      have passed : exitCode r ≠ 1 := by
        rw [Ne, exitCode_eq_one_iff]
        exact fun syntactic => absurd (family.2 ⟨r, rfl, syntactic⟩) (by decide)
      rw [if_neg passed]
      rfl
    | false =>
      obtain ⟨r', same, syntactic⟩ := family.1 rfl
      cases same
      have code := exitCode_eq_one_iff.2 syntactic
      rw [if_pos code, ← code]
      rfl

/-- A division by zero is told so in a session without any call before. -/
theorem evaluateOnce_tells_zero : Setup.standard.constants.Numeric ∧
    0 ≤ Setup.standard.style.places ∧ Setup.standard.debug = false ∧
      Tells (Session.start Setup.standard) ⟨true, true, .working⟩ [] ['1', '/', '0'] :=
  ⟨Constant.numeric_builtin, by decide, rfl, evaluateOnce_tells (Session.start Setup.standard)
    Constant.numeric_builtin (by decide) rfl ⟨true, true, .working⟩ [] ['1', '/', '0']⟩

end CommandLine

end Reckoner
