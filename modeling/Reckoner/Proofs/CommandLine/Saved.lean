import Reckoner.Proofs.CommandLine.Flags
import Reckoner.Proofs.Settings.Contents

set_option autoImplicit false

namespace Reckoner.CommandLine

open Settings

variable {request : Request} {flags : List Flag} {f : Flag} {settings : Settings}
  {file other : SettingsFile} {clipboard : Clipboard} {entry : Settings.Name × Json}
  {name : Settings.Name} {key : Text}

namespace Request

theorem stored_eq (request : Request) : request.stored =
    (request.radians.elim [] fun b => [(.text radiansKey, .truth b)]) ++
      (if request.fractions then [Flag.entry .fractions] else []) ++
      (if request.debug then [Flag.entry .debug] else []) ++
      (if request.copy then [Flag.entry .copy] else []) := rfl

/-- A request stores the settings of its flags. -/
theorem mem_stored_iff : entry ∈ request.stored ↔ ∃ f, request.Has f ∧ entry = Flag.entry f := by
  have optional {given : Bool} {f : Flag} : entry ∈ (if given then [Flag.entry f] else []) ↔
      given = true ∧ entry = Flag.entry f := by
    cases given <;> simp
  have unit : (entry ∈ request.radians.elim [] fun b => [(.text radiansKey, .truth b)]) ↔
      (request.radians = some true ∧ entry = Flag.entry .radians) ∨
        (request.radians = some false ∧ entry = Flag.entry .degrees) := by
    rcases request.radians with _ | _ | _ <;> simp [Flag.entry, Flag.key, Flag.value]
  rw [stored_eq, List.mem_append, List.mem_append, List.mem_append, unit, optional, optional, optional]
  constructor
  · rintro ((((h | h) | h) | h) | h)
    · exact ⟨.radians, h⟩
    · exact ⟨.degrees, h⟩
    · exact ⟨.fractions, h⟩
    · exact ⟨.debug, h⟩
    · exact ⟨.copy, h⟩
  · rintro ⟨f, h⟩
    cases f with
    | radians => exact .inl (.inl (.inl (.inl h)))
    | degrees => exact .inl (.inl (.inl (.inr h)))
    | fractions => exact .inl (.inl (.inr h))
    | debug => exact .inl (.inr h)
    | copy => exact .inr h

theorem distinct_stored (request : Request) : Table.Distinct request.stored := by
  have parts : ∀ (radians : Option Bool) (fractions debug copy : Bool), Table.Distinct
      ((radians.elim [] fun b => [(.text radiansKey, .truth b)]) ++
        (if fractions then [Flag.entry .fractions] else []) ++
        (if debug then [Flag.entry .debug] else []) ++
        (if copy then [Flag.entry .copy] else [])) := by
    unfold Table.Distinct
    decide
  rw [stored_eq]
  exact parts _ _ _ _

theorem get?_stored (has : request.Has f) :
    request.stored.get? (.text f.key) = some (.truth f.value) :=
  Table.get?_eq_some_of_mem request.distinct_stored (mem_stored_iff.2 ⟨f, has, rfl⟩)

theorem get?_stored_eq_none (absent : ∀ f, request.Has f → name ≠ .text f.key) :
    request.stored.get? name = none := by
  rw [Table.get?_eq_none_iff, Table.has_eq_false_iff]
  intro key member
  obtain ⟨entry, inside, rfl⟩ := List.mem_map.1 member
  obtain ⟨f, has, rfl⟩ := mem_stored_iff.1 inside
  exact beq_text_eq_false_iff.2 (absent f has)

/-- The value of a setting after the flags are put over the settings. -/
theorem get?_overlay_stored (has : request.Has f) (settings : Settings) :
    (settings.overlay request.stored).get? (.text f.key) = some (.truth f.value) := by
  rw [Table.get?_overlay request.distinct_stored, get?_stored has, Option.some_or]

theorem get?_overlay_stored_of_not (absent : ∀ f, request.Has f → name ≠ .text f.key)
    (settings : Settings) : (settings.overlay request.stored).get? name = settings.get? name := by
  rw [Table.get?_overlay request.distinct_stored, get?_stored_eq_none absent, Option.none_or]

theorem flag_overlay_stored (has : request.Has f) (settings : Settings) :
    Settings.flag (settings.overlay request.stored) f.key = f.value := by
  unfold Settings.flag Settings.value?
  rw [get?_overlay_stored has]
  rfl

theorem value?_overlay_stored (absent : ∀ f, request.Has f → f.key ≠ key) (settings : Settings) :
    Settings.value? (settings.overlay request.stored) key = settings.value? key :=
  get?_overlay_stored_of_not
    (fun f has same => absent f has (CodePoints.coe_injective (Settings.Name.text.inj same)).symm)
    settings

theorem flag_overlay_stored_of_not (absent : ∀ f, request.Has f → f.key ≠ key) (settings : Settings) :
    Settings.flag (settings.overlay request.stored) key = settings.flag key := by
  unfold Settings.flag
  rw [value?_overlay_stored absent]

/-- A flag that is given counts, and else the setting. -/
theorem flag_overlay_stored_eq {given : Bool} (has : request.Has f ↔ given = true)
    (only : ∀ g, request.Has g → g.key = f.key → g = f) (on : f.value = true) (settings : Settings) :
    Settings.flag (settings.overlay request.stored) f.key = (given || settings.flag f.key) := by
  cases given with
  | true => rw [flag_overlay_stored (has.2 rfl), on, Bool.true_or]
  | false =>
    rw [Bool.false_or]
    refine flag_overlay_stored_of_not (fun g held same => ?_) settings
    rw [only g held same] at held
    exact Bool.false_ne_true (has.1 held)

theorem angles_overlay_stored (settings : Settings) :
    AngleMode.ofRadiansFlag (Settings.flag (settings.overlay request.stored) radiansKey) =
      request.overrides.angles.getD (.ofRadiansFlag (settings.flag radiansKey)) := by
  cases radians : request.radians with
  | some unit =>
    have flag : Settings.flag (settings.overlay request.stored) radiansKey = unit := by
      cases unit with
      | true => exact flag_overlay_stored (f := .radians) radians settings
      | false => exact flag_overlay_stored (f := .degrees) radians settings
    simp only [overrides, radians, flag, Option.map_some, Option.getD_some]
  | none =>
    have absent (f : Flag) (has : request.Has f) : f.key ≠ radiansKey := by
      cases f with
      | radians | degrees =>
        have has : request.radians = some _ := has
        rw [radians] at has
        contradiction
      | _ => decide
    rw [flag_overlay_stored_of_not absent]
    simp only [overrides, radians, Option.map_none, Option.getD_none]

theorem flag_getD (given : Bool) (kept : Bool) :
    (if given then some true else none).getD kept = (given || kept) := by
  cases given <;> rfl

theorem flag_overlay_debug (settings : Settings) :
    Settings.flag (settings.overlay request.stored) debugKey =
      request.overrides.debug.getD (settings.flag debugKey) := by
  rw [overrides, flag_getD]
  exact flag_overlay_stored_eq (f := .debug) Iff.rfl (fun g _ => by cases g <;> decide) rfl settings

theorem flag_overlay_fractions (settings : Settings) :
    Settings.flag (settings.overlay request.stored) fractionsKey =
      request.overrides.fractions.getD (settings.flag fractionsKey) := by
  rw [overrides, flag_getD]
  exact flag_overlay_stored_eq (f := .fractions) Iff.rfl (fun g _ => by cases g <;> decide) rfl settings

theorem flag_overlay_copy (settings : Settings) :
    Settings.flag (settings.overlay request.stored) copyKey =
      (request.copy || settings.flag copyKey) :=
  flag_overlay_stored_eq (f := .copy) Iff.rfl (fun g _ => by cases g <;> decide) rfl settings

/-- Settings with the flags put over them ask for the setup that they ask for beside the flags. -/
theorem setup_overlay_stored (settings : Settings) :
    Settings.setup (settings.overlay request.stored) .none = settings.setup request.overrides := by
  have places : Settings.value? (settings.overlay request.stored) placesKey =
      settings.value? placesKey :=
    value?_overlay_stored (fun f _ => by cases f <;> decide) settings
  have constants : Settings.value? (settings.overlay request.stored) constantsKey =
      settings.value? constantsKey :=
    value?_overlay_stored (fun f _ => by cases f <;> decide) settings
  unfold Settings.setup Settings.places
  rw [places, constants, angles_overlay_stored, flag_overlay_debug, flag_overlay_fractions]
  rfl

/-- A run with these flags beside the settings goes like one without them where they are put over the
settings. -/
theorem proceed_bare (request : Request) (settings : Settings) (clipboard : Clipboard)
    (file other : SettingsFile) :
    request.bare.proceed (settings.overlay request.stored) clipboard other =
      { request.proceed settings clipboard file with file := other } := by
  have setup : Settings.setup (settings.overlay request.stored) request.bare.overrides =
      settings.setup request.overrides := setup_overlay_stored settings
  have copy : (request.bare.copy || Settings.flag (settings.overlay request.stored) copyKey) =
      (request.copy || settings.flag copyKey) := flag_overlay_copy settings
  have assignments : request.bare.assignments = request.assignments := rfl
  have expression : request.bare.expression = request.expression := rfl
  unfold proceed
  rw [setup, copy, assignments, expression]
  cases settings.setup request.overrides with
  | error m => rfl
  | ok setup =>
    cases putAssignments [] 0 request.assignments with
    | error m => rfl
    | ok bindings => cases request.expression <;> rfl

def given (request : Request) : Table CodePoints Json :=
  request.stored.map fun entry => (entry.1.member, entry.2)

theorem mem_given {member : CodePoints × Json} (inside : member ∈ request.given) :
    ∃ f, request.Has f ∧ member = (↑f.key, .truth f.value) := by
  obtain ⟨entry, source, rfl⟩ := List.mem_map.1 inside
  obtain ⟨f, has, rfl⟩ := mem_stored_iff.1 source
  exact ⟨f, has, rfl⟩

theorem stored_eq_ofMembers (request : Request) : request.stored = ofMembers request.given := by
  unfold ofMembers given
  rw [List.map_map]
  refine ((List.map_congr_left fun entry inside => ?_).trans (List.map_id _)).symm
  obtain ⟨f, _, rfl⟩ := mem_stored_iff.1 inside
  rfl

theorem overlay_stored (request : Request) (members : Table CodePoints Json) :
    Table.overlay (ofMembers members) request.stored = ofMembers (members.overlay request.given) := by
  rw [stored_eq_ofMembers]
  exact (Table.rename_overlay Settings.Name.text_beq members request.given).symm

end Request

/-- The settings of a file that holds at most an object are the members of an object, which begin like
the standard settings. -/
theorem exists_members_of_load (objects : ∀ json, file.Holds json → ∃ members, json = .object members)
    (loaded : file.load = .ok settings) : ∃ members : Table CodePoints Json,
      settings = ofMembers members ∧ (Json.object members).Formed ∧
        Table.names defaults <+: Table.names members := by
  cases SettingsFile.load_eq_ok_iff.1 loaded with
  | blank => exact ⟨defaults, rfl, .object _ distinct_defaults formed_defaults, List.prefix_rfl⟩
  | @object members holds =>
    obtain ⟨t, _, read⟩ := holds
    exact ⟨defaults.overlay members, (ofMembers_overlay members).symm,
      formed_overlay (Json.formed_of_read read), Table.names_overlay defaults members⟩
  | empty holds =>
    obtain ⟨_, same⟩ := objects _ holds
    cases same
  | entries holds _ =>
    obtain ⟨_, same⟩ := objects _ holds
    cases same

/-- What is saved when flags are stored. -/
def storing (settings : Settings) (flags : List Flag) : Json :=
  Settings.toJson (settings.overlay (Request.empty.flagged flags).stored)

theorem formed_overlay_given {members : Table CodePoints Json} (formed : (Json.object members).Formed)
    (request : Request) : (Json.object (members.overlay request.given)).Formed := by
  cases formed with
  | object _ distinct all =>
    refine .object _ (distinct.overlay request.given) (Table.forall_mem_overlay all ?_)
    intro member inside
    obtain ⟨f, _, rfl⟩ := Request.mem_given inside
    exact .truth f.value

/-- Loaded settings with flags put over them are loaded again as they are, if they can be saved. -/
theorem exists_save_stored (open' : file.writable = true)
    (objects : ∀ json, file.Holds json → ∃ members, json = .object members)
    (loaded : file.load = .ok settings) (writable : (storing settings flags).Writable) :
    ∃ saved, file.save (storing settings flags) = (.ok (), saved) ∧
      saved.load = .ok (settings.overlay (Request.empty.flagged flags).stored) := by
  obtain ⟨members, rfl, formed, first⟩ := exists_members_of_load objects loaded
  have formed := formed_overlay_given formed (Request.empty.flagged flags)
  refine ⟨_, SettingsFile.save_of_writable open' writable, ?_⟩
  rw [storing, Request.overlay_stored, toJson_ofMembers] at writable ⊢
  have reloaded := SettingsFile.load_holding file writable formed
  have begins := first.trans (Table.names_overlay members (Request.empty.flagged flags).given)
  cases formed with
  | object _ distinct _ =>
    rwa [Table.overlay_eq_self distinct begins] at reloaded

/-- Settings that cannot be saved have one that is no flag's, and the standard settings do not have
it. -/
theorem exists_lost (objects : ∀ json, file.Holds json → ∃ members, json = .object members)
    (coherent : Coherent flags) (loaded : file.load = .ok settings)
    (broken : ¬ (storing settings flags).Writable) :
    ∃ name, (∀ f ∈ flags, name ≠ .text f.key) ∧ settings.get? name ≠ standard.get? name := by
  obtain ⟨members, rfl, formed, _⟩ := exists_members_of_load objects loaded
  have shape := Request.overlay_stored (Request.empty.flagged flags) members
  rw [storing, shape, toJson_ofMembers] at broken
  obtain ⟨⟨name, value⟩, inside, unwritable⟩ := Json.exists_member_not_writable broken
  have distinct : (members.overlay (Request.empty.flagged flags).given).Distinct := by
    cases formed_overlay_given formed (Request.empty.flagged flags)
    assumption
  have found : Table.get? (Table.overlay (ofMembers members) (Request.empty.flagged flags).stored)
      (.text name) = some value := by
    rw [shape, get?_ofMembers, Table.get?_eq_some_of_mem distinct inside]
  have other : ∀ f, (Request.empty.flagged flags).Has f → Settings.Name.text name ≠ .text f.key := by
    intro f has same
    rw [same, Request.get?_overlay_stored has, Option.some.injEq] at found
    refine unwritable ⟨?_, ?_⟩
    · rw [Settings.Name.text.inj same]
      exact CodePoints.isText_coe _
    · rw [← found]
      exact .truth f.value
  refine ⟨.text name, fun f member => other f ((Request.has_flagged_empty_iff coherent).2 member),
    fun same => ?_⟩
  rw [Request.get?_overlay_stored_of_not other, same] at found
  have default : Table.get? defaults name = some value := (get?_ofMembers defaults name).symm.trans found
  have member := Table.mem_of_get? default
  exact unwritable ⟨isText_defaults _ member, writable_defaults _ member⟩

theorem start_of_parse {arguments : List Text} (read : parse arguments = .ok request) :
    start arguments clipboard file = request.run clipboard file := by
  unfold start
  rw [read]

/-- Runs go on and end alike if only their files differ before the dialogue. -/
theorem run_alike {arguments arguments' : List Text} {file' : SettingsFile} (input : Text)
    (same : start arguments clipboard file =
      { start arguments' clipboard file' with file := file }) :
    (run arguments clipboard file input).emissions = (run arguments' clipboard file' input).emissions ∧
      (run arguments clipboard file input).ending = (run arguments' clipboard file' input).ending := by
  unfold run
  rw [same]
  cases next : (start arguments' clipboard file').next with
  | inl ending => simp only [next, and_self]
  | inr rest => simp only [next, and_self]

/-- The request for some flags asks for nothing else. -/
theorem flagged_fields (flags : List Flag) :
    (Request.empty.flagged flags).expression = none ∧ (Request.empty.flagged flags).save = false := by
  have bare := Request.bare_flagged Request.empty flags
  exact ⟨congrArg Request.expression bare, congrArg Request.save bare⟩

theorem Request.run_of_error {m : Mishap} (failed : file.load = .error m) (request : Request) :
    request.run clipboard file = ⟨[], file, .inl (.mishap m)⟩ := by
  unfold Request.run
  rw [failed]

theorem Request.run_of_save {saved : SettingsFile} (loaded : file.load = .ok settings)
    (save : request.save = true) (none : request.expression = none)
    (written : file.save (Settings.toJson (settings.overlay request.stored)) = (.ok (), saved)) :
    request.run clipboard file =
      ⟨[.out ("Settings saved to " ++ String.ofList saved.path)], saved, .inl (.exit 0)⟩ := by
  unfold Request.run
  rw [loaded]
  simp only [save, if_true, written, none]

theorem Request.run_of_torn {m : Mishap} {torn : SettingsFile} (loaded : file.load = .ok settings)
    (save : request.save = true)
    (failed : file.save (Settings.toJson (settings.overlay request.stored)) =
      (.error (.mishap m), torn)) :
    request.run clipboard file = ⟨[], torn, .inl (.mishap m)⟩ := by
  unfold Request.run
  rw [loaded]
  simp only [save, if_true, failed]

/-- What is stored when flags are given, and how the run ends that stores it. -/
theorem run_save (open' : file.writable = true)
    (objects : ∀ json, file.Holds json → ∃ members, json = .object members)
    (coherent : Coherent flags) (loaded : file.load = .ok settings)
    (writable : (storing settings flags).Writable) (clipboard : Clipboard) (input : Text) :
    (run (flags.map Flag.text ++ [saveText]) clipboard file input).ending = .exit 0 ∧
      (run (flags.map Flag.text ++ [saveText]) clipboard file input).file.load =
        .ok (settings.overlay (Request.empty.flagged flags).stored) := by
  obtain ⟨saved, written, reloaded⟩ := exists_save_stored open' objects loaded writable
  have opened : start (flags.map Flag.text ++ [saveText]) clipboard file = _ :=
    (start_of_parse (parse_flags_save coherent)).trans
      (Request.run_of_save loaded rfl (flagged_fields flags).1 written)
  unfold run
  rw [opened]
  exact ⟨rfl, reloaded⟩

/-- What is lost when flags are given beside settings that cannot be saved. -/
theorem run_save_of_not_writable (open' : file.writable = true)
    (objects : ∀ json, file.Holds json → ∃ members, json = .object members)
    (coherent : Coherent flags) (loaded : file.load = .ok settings)
    (broken : ¬ (storing settings flags).Writable) (clipboard : Clipboard) (input : Text) :
    (∃ m, (run (flags.map Flag.text ++ [saveText]) clipboard file input).ending = .mishap m) ∧
      (run (flags.map Flag.text ++ [saveText]) clipboard file input).file.load = .ok standard := by
  have formed : (storing settings flags).Formed := by
    obtain ⟨members, rfl, formed, _⟩ := exists_members_of_load objects loaded
    rw [storing, Request.overlay_stored, toJson_ofMembers]
    exact formed_overlay_given formed _
  obtain ⟨m, torn, failed, reloaded⟩ := SettingsFile.save_of_not_writable open' formed broken
  have opened : start (flags.map Flag.text ++ [saveText]) clipboard file = _ :=
    (start_of_parse (parse_flags_save coherent)).trans (Request.run_of_torn loaded rfl failed)
  unfold run
  rw [opened]
  exact ⟨⟨m, rfl⟩, reloaded⟩

theorem file_run_save_of_error {m : Mishap} (coherent : Coherent flags) (failed : file.load = .error m)
    (input : Text) :
    (run (flags.map Flag.text ++ [saveText]) clipboard file input).file = file := by
  unfold run
  rw [start_of_parse (parse_flags_save coherent), Request.run_of_error failed]

theorem parse_operand {expression : Text} (operand : classify expression = .ok (.operand expression)) :
    parse [expression] = .ok { Request.empty with expression := some expression } := by
  have none : Coherent [] := fun f member => by cases member
  exact parse_flags_operand none operand

/-- A run with an expression before and after its flags were stored. -/
theorem start_stored {expression : Text} (coherent : Coherent flags)
    (operand : classify expression = .ok (.operand expression)) (loaded : file.load = .ok settings)
    (reloaded : other.load = .ok (settings.overlay (Request.empty.flagged flags).stored))
    (clipboard : Clipboard) :
    start [expression] clipboard other =
      { start (flags.map Flag.text ++ [expression]) clipboard file with file := other } := by
  have bare : Request.bare { Request.empty.flagged flags with expression := some expression } =
      { Request.empty with expression := some expression } :=
    congrArg (fun r => { r with expression := some expression })
      (Request.bare_flagged Request.empty flags)
  have proceed := Request.proceed_bare
    { Request.empty.flagged flags with expression := some expression } settings clipboard file other
  rw [bare] at proceed
  rw [start_of_parse (parse_flags_operand coherent operand), start_of_parse (parse_operand operand)]
  unfold Request.run
  rw [loaded, reloaded]
  simp only [(flagged_fields flags).2]
  exact proceed

/-- Of the settings that one file gives, another one gives the flags' as they have them, and all others
as the first one does. -/
def Changes (flags : List Flag) (file other : SettingsFile) : Prop :=
  ∀ settings, file.load = .ok settings → ∃ stored, other.load = .ok stored ∧
    (∀ f ∈ flags, stored.get? (.text f.key) = some (.truth f.value)) ∧
    ∀ name, (∀ f ∈ flags, name ≠ .text f.key) → stored.get? name = settings.get? name

theorem changes_of_stored (coherent : Coherent flags) (loaded : file.load = .ok settings)
    (reloaded : other.load = .ok (settings.overlay (Request.empty.flagged flags).stored)) :
    Changes flags file other := by
  intro settings' same
  rw [loaded, Except.ok.injEq] at same
  subst same
  refine ⟨_, reloaded, fun f member => ?_, fun name apart => ?_⟩
  · exact Request.get?_overlay_stored ((Request.has_flagged_empty_iff coherent).2 member) settings
  · refine Request.get?_overlay_stored_of_not (fun f has => ?_) settings
    exact apart f ((Request.has_flagged_empty_iff coherent).1 has)

/-- Flags can be stored first, just if the settings can be saved. For every file that can be opened and
holds at most an object, every choice of flags and everything that is taken as an expression, a run with
the expression alone after the flags were stored puts out and ends like a run with the flags and the
expression before, and the flags change their own settings and no others, if and only if the loaded
settings with the flags can be written. If not, the run that stores them ends in a mishap, and all
settings are lost. -/
theorem run_stored_flags_iff (file : SettingsFile) (open' : file.writable = true)
    (objects : ∀ json, file.Holds json → ∃ members, json = .object members)
    (flags : List Flag) (coherent : Coherent flags) (expression : Text)
    (taken : ∃ request, parse [expression] = .ok request ∧ request.expression = some expression)
    (clipboard : Clipboard) (input : Text) :
    let first := run (flags.map Flag.text ++ [saveText]) clipboard file input
    let second := run [expression] clipboard first.file input
    let direct := run (flags.map Flag.text ++ [expression]) clipboard file input
    (second.emissions = direct.emissions ∧ second.ending = direct.ending ∧
        Changes flags file first.file ↔
      ∀ settings, file.load = .ok settings → (storing settings flags).Writable) ∧
    ∀ settings, file.load = .ok settings →
      ((storing settings flags).Writable → first.ending = .exit 0) ∧
      (¬ (storing settings flags).Writable →
        (∃ m, first.ending = .mishap m) ∧ first.file.load = .ok standard) := by
  intro first second direct
  obtain ⟨request, alone, given⟩ := taken
  have operand := classify_of_parse alone given
  refine ⟨⟨fun ⟨_, _, changes⟩ settings loaded => ?_, fun writable => ?_⟩, fun settings loaded =>
    ⟨fun writable => (run_save open' objects coherent loaded writable clipboard input).1,
      fun broken => run_save_of_not_writable open' objects coherent loaded broken clipboard input⟩⟩
  · by_contra broken
    have lost := (run_save_of_not_writable open' objects coherent loaded broken clipboard input).2
    obtain ⟨name, apart, different⟩ := exists_lost objects coherent loaded broken
    obtain ⟨stored, reloaded, _, kept⟩ := changes settings loaded
    rw [lost, Except.ok.injEq] at reloaded
    exact different (by rw [← kept name apart, ← reloaded])
  · cases loaded : file.load with
    | error m =>
      have kept : first.file = file := file_run_save_of_error coherent loaded input
      have alike : start [expression] clipboard file =
          { start (flags.map Flag.text ++ [expression]) clipboard file with file := file } := by
        rw [start_of_parse (parse_operand operand), start_of_parse (parse_flags_operand coherent operand),
          Request.run_of_error loaded, Request.run_of_error loaded]
      obtain ⟨emissions, ending⟩ := run_alike input alike
      have again : second = run [expression] clipboard file input :=
        congrArg (fun f => run [expression] clipboard f input) kept
      rw [again]
      exact ⟨emissions, ending, fun settings same => by rw [loaded] at same; cases same⟩
    | ok settings =>
      have reloaded := (run_save open' objects coherent loaded (writable settings loaded) clipboard
        input).2
      obtain ⟨emissions, ending⟩ :=
        run_alike input (start_stored coherent operand loaded reloaded clipboard)
      exact ⟨emissions, ending, changes_of_stored coherent loaded reloaded⟩

/-- The text of an object with a note in which there is half of a surrogate pair. -/
def halfNoteText : Text :=
  ['{', '"', 'n', 'o', 't', 'e', '"', ':', ' ', '"', '\\', 'u', 'd', '8', '0', '0', '"', '}']

def halfNoteFile : SettingsFile := ⟨['f'], some halfNoteText, true⟩

theorem read_halfNoteText : Json.read halfNoteText =
    .ok (.object [(SettingsFile.noteKey, .text [.half 0])]) := rfl

theorem holds_halfNoteFile {json : Json} (holds : halfNoteFile.Holds json) :
    ∃ members, json = .object members := by
  obtain ⟨t, content, read⟩ := holds
  cases content
  rw [read_halfNoteText, Except.ok.injEq] at read
  exact ⟨_, read.symm⟩

theorem load_halfNoteFile : halfNoteFile.load =
    .ok (standard.overlay (ofMembers [(SettingsFile.noteKey, .text [.half 0])])) :=
  SettingsFile.load_eq_ok_iff.2 (.object ⟨_, rfl, read_halfNoteText⟩)

theorem not_writable_storing_halfNote : ¬ (storing
    (standard.overlay (ofMembers [(SettingsFile.noteKey, .text [.half 0])])) [.radians]).Writable :=
  SettingsFile.not_writable_of_note (List.mem_of_getElem? (i := 6) rfl)

/-- After radians were stored beside that note, a run has the standard settings. -/
theorem run_stored_flags_halfNote :
    let first := run ([Flag.radians].map Flag.text ++ [saveText]) .working halfNoteFile []
    halfNoteFile.writable = true ∧ Coherent [.radians] ∧
      (∃ m, first.ending = .mishap m) ∧ first.file.load = .ok standard := by
  intro first
  have coherent : Coherent [.radians] := by
    unfold Coherent
    decide
  have lost := (run_stored_flags_iff halfNoteFile rfl (fun _ => holds_halfNoteFile) [.radians] coherent
    ['1'] ⟨_, rfl, rfl⟩ .working []).2 _ load_halfNoteFile
  exact ⟨rfl, coherent, lost.2 not_writable_storing_halfNote⟩

end Reckoner.CommandLine
