import Mathlib.Data.List.Induction
import Mathlib.Tactic.Common
import Reckoner.Settings.Shared

set_option autoImplicit false

namespace Reckoner

variable {file : SettingsFile} {setup : Setup}

/-- The setup that the settings in a file ask for. -/
def SettingsFile.build (file : SettingsFile) : Except Mishap Setup := do
  (← file.load).setup .none

namespace Shared

inductive Call where
  | solve (bindings : Bindings) (raw : Text)
  | check (raw : Text)

def Call.Value : Call → Type
  | solve _ _ => Option Float
  | check _ => Bool

def Call.on : (call : Call) → Session → Reply call.Value
  | solve bindings raw, session => session.solve bindings raw
  | check raw, session => session.check raw

/-- One step of a history. -/
inductive Action where
  | save (json : Json)
  | call (call : Call)
  | drop

def after (shared : Shared) : Action → Shared
  | .save json => { shared with file := (shared.file.save json).2 }
  | .call call => (shared.call call.on).2
  | .drop => shared.drop

def run (shared : Shared) (actions : List Action) : Shared := actions.foldl after shared

/-- The settings file after a history, in which only the saves count. -/
def fileAfter (file : SettingsFile) : List Action → SettingsFile
  | [] => file
  | .save json :: rest => fileAfter (file.save json).2 rest
  | .call _ :: rest | .drop :: rest => fileAfter file rest

theorem solve_eq_call (shared : Shared) (bindings : Bindings) (raw : Text) :
    shared.solve bindings raw = shared.call (Call.solve bindings raw).on := rfl

theorem check_eq_call (shared : Shared) (raw : Text) :
    shared.check raw = shared.call (Call.check raw).on := rfl

@[simp] theorem run_append_singleton (shared : Shared) (actions : List Action) (action : Action) :
    shared.run (actions ++ [action]) = (shared.run actions).after action := by
  unfold run
  rw [List.foldl_append]
  rfl

theorem fileAfter_append (file : SettingsFile) (first second : List Action) :
    fileAfter file (first ++ second) = fileAfter (fileAfter file first) second := by
  induction first generalizing file with
  | nil => rfl
  | cons action rest ih => cases action <;> exact ih _

/-- The setup of a session is for good. -/
theorem Call.setup_on (call : Call) (session : Session) :
    (call.on session).session.setup = session.setup := by
  cases call with
  | solve bindings raw =>
    show (session.solve bindings raw).session.setup = session.setup
    simp only [Session.solve]
    cases (session.setup.evaluate bindings raw).outcome <;> rfl
  | check raw =>
    show (session.check raw).session.setup = session.setup
    simp only [Session.check]
    cases (session.setup.checked raw).outcome with
    | ok t => rfl
    | error refusal => cases refusal <;> rfl

/-- What a session remembers does not change what it gives. -/
theorem Call.outcome_on (call : Call) (session : Session) :
    (call.on session).outcome = (call.on (Session.start session.setup)).outcome := by
  cases call with
  | solve bindings raw =>
    show (session.solve bindings raw).outcome =
      ((Session.start session.setup).solve bindings raw).outcome
    simp only [Session.solve, Session.start]
    cases (session.setup.evaluate bindings raw).outcome <;> rfl
  | check raw =>
    show (session.check raw).outcome = ((Session.start session.setup).check raw).outcome
    simp only [Session.check, Session.start]
    cases (session.setup.checked raw).outcome with
    | ok t => rfl
    | error refusal => cases refusal <;> rfl

theorem obtain_none (file : SettingsFile) :
    (⟨file, none⟩ : Shared).obtain = file.build.map Session.start := by
  unfold obtain SettingsFile.build
  cases file.load with
  | error m => rfl
  | ok settings =>
    show (settings.setup .none).bind _ = (settings.setup .none).map Session.start
    cases settings.setup .none <;> rfl

theorem call_some (file : SettingsFile) (session : Session) (call : Call) :
    (⟨file, some session⟩ : Shared).call call.on =
      ((call.on session).outcome, ⟨file, some (call.on session).session⟩) := rfl

theorem call_none_of_ok (built : file.build = .ok setup) (call : Call) :
    (⟨file, none⟩ : Shared).call call.on = ((call.on (Session.start setup)).outcome,
      ⟨file, some (call.on (Session.start setup)).session⟩) := by
  unfold Shared.call
  rw [obtain_none, built]
  rfl

theorem call_none_of_error {m : Mishap} (failed : file.build = .error m) (call : Call) :
    (⟨file, none⟩ : Shared).call call.on = (.error (.mishap m), ⟨file, none⟩) := by
  unfold Shared.call
  rw [obtain_none, failed]
  rfl

/-- This comes before a call of the history, and nothing was dropped since. -/
def BeforeCall (actions earlier : List Action) : Prop :=
  ∃ call later, actions = earlier ++ .call call :: later ∧ ∀ action ∈ later, action ≠ .drop

/-- Since the last drop, or since the start, some call found a settings file from which a session can
be set up, and the first such call found one that gives this setup. -/
def FirstBuild (file : SettingsFile) (actions : List Action) (setup : Setup) : Prop :=
  ∃ earlier, BeforeCall actions earlier ∧ (fileAfter file earlier).build = .ok setup ∧
    ∀ before, BeforeCall actions before → before.length < earlier.length →
      ∃ m, (fileAfter file before).build = .error m

theorem not_beforeCall_nil (earlier : List Action) : ¬ BeforeCall [] earlier := by
  intro ⟨call, later, same, _⟩
  have nonempty : ([] : List Action) ≠ earlier ++ .call call :: later := by simp
  exact nonempty same

theorem BeforeCall.length_lt {actions earlier : List Action} (h : BeforeCall actions earlier) :
    earlier.length < actions.length := by
  obtain ⟨call, later, rfl, _⟩ := h
  rw [List.length_append, List.length_cons]
  omega

/-- The calls that count after one more step are those that counted before, unless the step is a drop,
and the step itself, if it is a call. -/
theorem beforeCall_append {actions earlier : List Action} {action : Action} :
    BeforeCall (actions ++ [action]) earlier ↔
      (action ≠ .drop ∧ BeforeCall actions earlier) ∨
        (earlier = actions ∧ ∃ call, action = .call call) := by
  constructor
  · intro ⟨call, later, same, kept⟩
    rcases List.eq_nil_or_concat later with rfl | ⟨init, last, rfl⟩
    · apply Or.inr
      obtain ⟨same, step⟩ := List.append_inj' same rfl
      exact ⟨same.symm, call, List.singleton_inj.1 step⟩
    · apply Or.inl
      rw [List.concat_eq_append, ← List.cons_append, ← List.append_assoc] at same
      obtain ⟨shorter, step⟩ := List.append_inj' same rfl
      refine ⟨?_, call, init, shorter, ?_⟩
      · rw [List.singleton_inj.1 step]
        exact kept last (by simp)
      · intro a member
        exact kept a (by simp [member])
  · rintro (⟨keeps, call, later, rfl, kept⟩ | ⟨rfl, call, rfl⟩)
    · refine ⟨call, later ++ [action], by simp, ?_⟩
      intro a member
      rcases List.mem_append.1 member with member | member
      · exact kept a member
      · rw [List.mem_singleton.1 member]
        exact keeps
    · exact ⟨call, [], rfl, fun a member => absurd member List.not_mem_nil⟩

theorem not_firstBuild_nil (file : SettingsFile) (setup : Setup) : ¬ FirstBuild file [] setup :=
  fun ⟨earlier, call, _⟩ => not_beforeCall_nil earlier call

theorem firstBuild_save {actions : List Action} {json : Json} :
    FirstBuild file (actions ++ [.save json]) setup ↔ FirstBuild file actions setup := by
  have same (earlier : List Action) :
      BeforeCall (actions ++ [.save json]) earlier ↔ BeforeCall actions earlier := by
    simp [beforeCall_append]
  simp only [FirstBuild, same]

theorem not_firstBuild_drop (file : SettingsFile) (actions : List Action) (setup : Setup) :
    ¬ FirstBuild file (actions ++ [.drop]) setup := by
  intro ⟨earlier, call, _⟩
  simp [beforeCall_append] at call

/-- A call keeps the setup that there was. -/
theorem FirstBuild.call {actions : List Action} (h : FirstBuild file actions setup) (call : Call) :
    FirstBuild file (actions ++ [.call call]) setup := by
  obtain ⟨earlier, counts, built, first⟩ := h
  refine ⟨earlier, beforeCall_append.2 (.inl ⟨fun same => (by cases same), counts⟩), built, ?_⟩
  intro before called less
  rcases beforeCall_append.1 called with ⟨_, called⟩ | ⟨rfl, _⟩
  · exact first before called less
  · have := counts.length_lt
    omega

/-- As long as there was no setup, no call found a file that gives one. -/
theorem build_eq_error {actions earlier : List Action}
    (none : ∀ setup, ¬ FirstBuild file actions setup) (counts : BeforeCall actions earlier) :
    ∃ m, (fileAfter file earlier).build = .error m := by
  induction size : earlier.length using Nat.strongRecOn generalizing earlier with
  | ind n ih =>
    cases built : (fileAfter file earlier).build with
    | error m => exact ⟨m, rfl⟩
    | ok setup =>
      refine absurd ⟨earlier, counts, built, ?_⟩ (none setup)
      intro before called less
      exact ih before.length (size ▸ less) called rfl

/-- A call without a setup before it gives one just when the file has one now. -/
theorem firstBuild_call {actions : List Action} (none : ∀ setup, ¬ FirstBuild file actions setup)
    (call : Call) : FirstBuild file (actions ++ [.call call]) setup ↔
      (fileAfter file actions).build = .ok setup := by
  constructor
  · intro ⟨earlier, counts, built, _⟩
    rcases beforeCall_append.1 counts with ⟨_, counts⟩ | ⟨rfl, _⟩
    · obtain ⟨m, failed⟩ := build_eq_error none counts
      rw [failed] at built
      contradiction
    · exact built
  · intro built
    refine ⟨actions, beforeCall_append.2 (.inr ⟨rfl, call, rfl⟩), built, ?_⟩
    intro before called less
    rcases beforeCall_append.1 called with ⟨_, called⟩ | ⟨rfl, _⟩
    · exact build_eq_error none called
    · omega

/-- What the shared session is after a history: the file is what the saves left, and there is a session
just if some call found a setup, with the first setup that was found. -/
inductive Follows (file : SettingsFile) (actions : List Action) : Shared → Prop where
  | unset (none : ∀ setup, ¬ FirstBuild file actions setup) :
    Follows file actions ⟨fileAfter file actions, .none⟩
  | set (session : Session) (first : FirstBuild file actions session.setup) :
    Follows file actions ⟨fileAfter file actions, some session⟩

theorem Follows.step {actions : List Action} {shared : Shared} (h : Follows file actions shared)
    (action : Action) : Follows file (actions ++ [action]) (shared.after action) := by
  have file_eq : fileAfter file (actions ++ [action]) = fileAfter (fileAfter file actions) [action] :=
    fileAfter_append file actions [action]
  cases action with
  | save json =>
    cases h with
    | unset none =>
      show Follows file _ ⟨fileAfter (fileAfter file actions) [.save json], .none⟩
      rw [← file_eq]
      exact .unset fun setup first => none setup (firstBuild_save.1 first)
    | set session first =>
      show Follows file _ ⟨fileAfter (fileAfter file actions) [.save json], some session⟩
      rw [← file_eq]
      exact .set session (firstBuild_save.2 first)
  | drop =>
    have dropped : shared.after .drop = ⟨fileAfter file actions, .none⟩ := by
      cases h <;> rfl
    have file_eq : fileAfter file (actions ++ [.drop]) = fileAfter file actions := file_eq
    rw [dropped, ← file_eq]
    exact .unset (not_firstBuild_drop file actions)
  | call call =>
    have file_eq : fileAfter file (actions ++ [.call call]) = fileAfter file actions := file_eq
    cases h with
    | set session first =>
      show Follows file _ ⟨fileAfter file actions, some (call.on session).session⟩
      rw [← file_eq]
      apply Follows.set
      rw [call.setup_on]
      exact first.call call
    | unset none =>
      show Follows file _ ((⟨fileAfter file actions, .none⟩ : Shared).call call.on).2
      cases built : (fileAfter file actions).build with
      | error m =>
        rw [call_none_of_error built, ← file_eq]
        apply Follows.unset
        intro setup first
        rw [firstBuild_call none, built] at first
        contradiction
      | ok setup =>
        rw [call_none_of_ok built, ← file_eq]
        apply Follows.set
        rw [call.setup_on]
        exact (firstBuild_call none call).2 built

theorem follows_run (file : SettingsFile) (actions : List Action) :
    Follows file actions ((⟨file, none⟩ : Shared).run actions) := by
  induction actions using List.reverseRecOn with
  | nil => exact .unset (not_firstBuild_nil file)
  | append_singleton actions action ih =>
    rw [run_append_singleton]
    exact ih.step action

/-- There is one first setup at most. -/
theorem FirstBuild.unique {actions : List Action} {other : Setup}
    (h : FirstBuild file actions setup) (h' : FirstBuild file actions other) : setup = other := by
  obtain ⟨earlier, counts, built, first⟩ := h
  obtain ⟨earlier', counts', built', first'⟩ := h'
  rcases Nat.lt_trichotomy earlier.length earlier'.length with less | same | more
  · obtain ⟨m, failed⟩ := first' earlier counts less
    rw [built] at failed
    contradiction
  · obtain ⟨call, later, written, _⟩ := counts
    obtain ⟨call', later', written', _⟩ := counts'
    rw [written] at written'
    have same : earlier = earlier' := (List.append_inj written' same).1
    rw [same, built'] at built
    exact (Except.ok.inj built).symm
  · obtain ⟨m, failed⟩ := first earlier' counts' more
    rw [built'] at failed
    contradiction

/-- After every history of saves, calls and drops, a call gives what it gives in a session of its own
that is set up from the file of the first call since the last drop that found a setup, itself
included. Where there is no such call the mishap of the setup leaves it, and no session is left. -/
theorem call_run (file : SettingsFile) (actions : List Action) (call : Call) :
    (∀ setup, FirstBuild file (actions ++ [.call call]) setup →
      (((⟨file, none⟩ : Shared).run actions).call call.on).1 =
        (call.on (Session.start setup)).outcome) ∧
    ((∀ setup, ¬ FirstBuild file (actions ++ [.call call]) setup) →
      ∃ m, (fileAfter file actions).build = .error m ∧
        ((⟨file, none⟩ : Shared).run actions).call call.on =
          (.error (.mishap m), ⟨fileAfter file actions, none⟩)) := by
  have state := follows_run file actions
  generalize (⟨file, none⟩ : Shared).run actions = shared at state ⊢
  cases state with
  | set session first =>
    refine ⟨fun setup built => ?_, fun none => absurd (first.call call) (none _)⟩
    rw [built.unique (first.call call), call_some]
    exact call.outcome_on session
  | unset none =>
    refine ⟨fun setup built => ?_, fun still => ?_⟩
    · rw [call_none_of_ok ((firstBuild_call none call).1 built)]
    · cases built : (fileAfter file actions).build with
      | error m => exact ⟨m, rfl, call_none_of_error built call⟩
      | ok setup => exact absurd ((firstBuild_call none call).2 built) (still setup)

/-- A settings file from which no session can be set up: it holds a list with a number in it. -/
def brokenFile : SettingsFile := ⟨['s'], some ['[', '1', ']'], true⟩

/-- A call that finds the broken file, a save that mends it, a call that finds the mended file, and a
save after that. -/
def mending : List Action :=
  [.call (.check ['1']), .save (.object []), .call (.check ['1']),
    .save (.object [(Settings.radiansKey, .truth true)])]

theorem build_brokenFile : brokenFile.build = .error .wrongSort := rfl

theorem firstBuild_mending (call : Call) :
    FirstBuild brokenFile (mending ++ [.call call]) Setup.standard := by
  refine ⟨mending.take 2, ⟨.check ['1'], mending.drop 3 ++ [.call call], rfl, ?_⟩, rfl, ?_⟩
  · intro action member
    simp only [mending, List.drop_succ_cons, List.drop_zero, List.cons_append, List.nil_append,
      List.mem_cons, List.not_mem_nil, or_false] at member
    rcases member with rfl | rfl <;> exact fun same => by cases same
  · intro before ⟨later, rest, same, _⟩ less
    cases before with
    | nil => exact ⟨_, build_brokenFile⟩
    | cons first before =>
      have short : before = [] := List.eq_nil_of_length_eq_zero (by
        change before.length + 1 < 2 at less
        omega)
      rw [short] at same
      cases same

/-- Sine stays in degrees although radians were saved meanwhile, and before the file is mended a call
leaves no session. -/
theorem call_run_mending :
    (FirstBuild brokenFile (mending ++ [.call (.solve [] ['s', 'i', 'n', '1'])]) Setup.standard ∧
      (((⟨brokenFile, none⟩ : Shared).run mending).call (Call.solve [] ['s', 'i', 'n', '1']).on).1 =
        ((Session.start Setup.standard).solve [] ['s', 'i', 'n', '1']).outcome) ∧
    (∀ setup, ¬ FirstBuild brokenFile [.call (.check ['1'])] setup) ∧
      ∃ m, brokenFile.build = .error m ∧
        (⟨brokenFile, none⟩ : Shared).call (Call.check ['1']).on =
          (.error (.mishap m), ⟨brokenFile, none⟩) := by
  have first := firstBuild_mending (.solve [] ['s', 'i', 'n', '1'])
  have broken (setup : Setup) : ¬ FirstBuild brokenFile [.call (.check ['1'])] setup := by
    intro built
    have now : (fileAfter brokenFile []).build = .ok setup :=
      (firstBuild_call (not_firstBuild_nil brokenFile) _).1 built
    have failed : (fileAfter brokenFile []).build = .error .wrongSort := build_brokenFile
    rw [failed] at now
    contradiction
  exact ⟨⟨first, (call_run brokenFile mending _).1 _ first⟩, broken,
    (call_run brokenFile [] (.check ['1'])).2 broken⟩

end Shared

end Reckoner
