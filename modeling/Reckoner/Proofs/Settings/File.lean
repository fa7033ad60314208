import Reckoner.Proofs.Json.BreakOff
import Reckoner.Settings.File

set_option autoImplicit false

namespace Reckoner

variable {file : SettingsFile} {members other : Table CodePoints Json} {name : Settings.Name}

def SettingsFile.allKey : Text := "all".toList

namespace Settings

def answer (settings : Settings) (name : Name) : Json :=
  if name == .text SettingsFile.allKey then settings.toJson
  else (settings.get? name).getD (.integer 0)

theorem Name.text_beq (a b : CodePoints) : (Name.text a == Name.text b) = (a == b) := by
  rw [Name.beq_eq, Bool.eq_iff_iff, beq_iff_eq, beq_iff_eq]
  exact Identity.text.injEq a b |>.to_iff

theorem get?_ofMembers (members : Table CodePoints Json) (name : CodePoints) :
    (ofMembers members).get? (.text name) = Table.get? members name :=
  Table.get?_rename Name.text_beq members name

/-- A name is a text only if it is the same text. -/
theorem beq_text_eq_false_iff {t : CodePoints} : (name == .text t) = false ↔ name ≠ .text t := by
  rw [Name.beq_eq, beq_eq_false_iff_ne]
  cases name with
  | text u => simp [Name.identity]
  | number x =>
    simp only [Name.identity]
    split_ifs <;> simp
  | _ => simp [Name.identity]

/-- What is no text names nothing in an object. -/
theorem get?_ofMembers_eq_none (other : ∀ t, name ≠ .text t) (members : Table CodePoints Json) :
    (ofMembers members).get? name = none := by
  rw [Table.get?_eq_none_iff, Table.has_eq_false_iff]
  intro key member
  rw [ofMembers, Table.names, List.map_map] at member
  obtain ⟨entry, _, rfl⟩ := List.mem_map.1 member
  exact beq_text_eq_false_iff.2 (other entry.1)

theorem toJson_ofMembers (members : Table CodePoints Json) :
    (ofMembers members).toJson = .object members := by
  unfold toJson ofMembers
  rw [List.map_map]
  exact congrArg Json.object (List.map_id members)

def defaults : Table CodePoints Json := standard.map fun entry => (entry.1.member, entry.2)

theorem distinct_defaults : defaults.Distinct := by
  unfold Table.Distinct
  decide

theorem formed_defaults : ∀ member ∈ defaults, member.2.Formed := by
  simp only [defaults, standard, List.map_cons, List.map_nil, List.forall_mem_cons]
  exact ⟨.truth _, .truth _, .integer _, .truth _, .truth _, .object [] Table.distinct_nil (by simp),
    by simp⟩

theorem isText_defaults : ∀ member ∈ defaults, member.1.IsText := by
  simp only [defaults, standard, List.map_cons, List.map_nil, List.forall_mem_cons]
  exact ⟨CodePoints.isText_coe _, CodePoints.isText_coe _, CodePoints.isText_coe _,
    CodePoints.isText_coe _, CodePoints.isText_coe _, CodePoints.isText_coe _, by simp⟩

theorem writable_defaults : ∀ member ∈ defaults, member.2.Writable := by
  simp only [defaults, standard, List.map_cons, List.map_nil, List.forall_mem_cons]
  exact ⟨.truth _, .truth _, .integer 12 (by decide), .truth _, .truth _,
    .object [] (by simp) (by simp), by simp⟩

theorem ofMembers_overlay (members : Table CodePoints Json) :
    ofMembers (defaults.overlay members) = standard.overlay (ofMembers members) :=
  Table.rename_overlay Name.text_beq defaults members

/-- The standard settings with values put over them stay when these are put over the standard settings
again. -/
theorem overlay_overlay (members : Table CodePoints Json) :
    defaults.overlay (defaults.overlay members) = defaults.overlay members :=
  Table.overlay_eq_self (distinct_defaults.overlay members) (Table.names_overlay defaults members)

theorem formed_overlay (formed : (Json.object members).Formed) :
    (Json.object (defaults.overlay members)).Formed := by
  cases formed with
  | object _ _ all =>
    exact .object _ (distinct_defaults.overlay members) (Table.forall_mem_overlay formed_defaults all)

theorem writable_overlay (writable : (Json.object members).Writable) :
    (Json.object (defaults.overlay members)).Writable := by
  cases writable with
  | object _ names all =>
    exact .object _ (Table.forall_name_overlay isText_defaults names)
      (Table.forall_mem_overlay writable_defaults all)

end Settings

namespace SettingsFile

open Settings

structure Gives (file : SettingsFile) (members : Table CodePoints Json) : Prop where
  all : file.loadValue (.text allKey) = .ok (.object (defaults.overlay members))
  one : ∀ name : CodePoints, name ≠ allKey → file.loadValue (.text name) =
    .ok (((Table.get? members name).or (defaults.get? name)).getD (.integer 0))
  other : ∀ name : Settings.Name, (∀ t, name ≠ .text t) → file.loadValue name = .ok (.integer 0)

def holding (file : SettingsFile) (json : Json) : SettingsFile :=
  { file with content := some json.written.text }

theorem save_of_writable (open' : file.writable = true) {json : Json} (writable : json.Writable) :
    file.save json = (.ok (), file.holding json) := by
  have whole := writable.mishap_write .indented 0 []
  unfold save
  rw [if_pos open']
  simp only [Json.written, whole]
  rfl

theorem load_holding (file : SettingsFile) (writable : (Json.object members).Writable)
    (formed : (Json.object members).Formed) :
    (file.holding (.object members)).load = .ok (ofMembers (defaults.overlay members)) := by
  have read : Json.read (Json.object members).written.text = .ok (.object members) :=
    writable.read_layout formed Json.Style.spaced_indented 0
  unfold load holding
  rw [Option.map_some, read, ofMembers_overlay]
  rfl

/-- Where a value cannot be written, the standard settings hold afterwards. -/
theorem save_of_not_writable (open' : file.writable = true) {json : Json} (formed : json.Formed)
    (broken : ¬ json.Writable) : ∃ m torn, file.save json = (.error (.mishap m), torn) ∧
      torn.load = .ok standard := by
  obtain ⟨m, mishap, read⟩ := formed.read_layout Json.Style.spaced_indented broken 0
  have mishap : json.written.mishap = some m := mishap
  have read : Json.read json.written.text = .error .malformed := read
  unfold save
  rw [if_pos open']
  simp only [mishap]
  refine ⟨m, _, rfl, ?_⟩
  unfold load
  rw [Option.map_some, read]

theorem save_of_closed (closed : file.writable = false) (json : Json) : ∃ fault,
    file.save json = (.error (.fault fault), file) ∧ fault.kind = .configuration :=
  ⟨_, if_neg (by rw [closed]; decide), rfl⟩

theorem loadValue_of_load {settings : Settings} (loaded : file.load = .ok settings)
    (name : Settings.Name) : file.loadValue name = .ok (settings.answer name) := by
  unfold loadValue
  rw [loaded]
  rfl

theorem gives_of_load (distinct : members.Distinct)
    (loaded : file.load = .ok (ofMembers (defaults.overlay members))) : file.Gives members := by
  constructor
  · rw [loadValue_of_load loaded, answer, if_pos BEq.rfl, toJson_ofMembers]
  · intro name different
    have beq : (Settings.Name.text name == .text allKey) = false :=
      beq_text_eq_false_iff.2 fun same => different (Settings.Name.text.inj same)
    rw [loadValue_of_load loaded, answer, beq, if_neg Bool.false_ne_true, get?_ofMembers,
      Table.get?_overlay distinct]
  · intro name other
    rw [loadValue_of_load loaded, answer, beq_text_eq_false_iff.2 (other allKey),
      get?_ofMembers_eq_none other]
    rfl

/-- The file keeps an object: it is saved, the file gives out the standard settings with its members put
over them, and still does so when they are saved as they are given out. -/
def Keeps (file : SettingsFile) (members : Table CodePoints Json) : Prop :=
  ∃ saved, file.save (.object members) = (.ok (), saved) ∧ saved.Gives members ∧
    ∀ loaded, saved.loadValue (.text allKey) = .ok loaded →
      ∃ again, saved.save loaded = (.ok (), again) ∧
        ∀ name, again.loadValue name = saved.loadValue name

theorem keeps_of_writable (open' : file.writable = true)
    (writable : (Json.object members).Writable) (formed : (Json.object members).Formed) :
    file.Keeps members := by
  have distinct : members.Distinct := by
    cases formed
    assumption
  have loaded := load_holding file writable formed
  have gives := gives_of_load distinct loaded
  refine ⟨_, save_of_writable open' writable, gives, fun json all => ?_⟩
  rw [gives.all, Except.ok.injEq] at all
  subst all
  have reloaded := load_holding (file.holding (.object members)) (writable_overlay writable)
    (formed_overlay formed)
  rw [overlay_overlay] at reloaded
  have still : (file.holding (.object members)).writable = true := open'
  refine ⟨_, save_of_writable still (writable_overlay writable), fun name => ?_⟩
  rw [loadValue_of_load loaded, loadValue_of_load reloaded]

/-- A file that can be opened keeps an object just when all of the object can be written. Otherwise the
save ends in a mishap, and the file gives out the standard settings. A file that cannot be opened is a
fault of the configuration and gives out what it gave out before. -/
theorem save_keeps_iff (file : SettingsFile) (members : Table CodePoints Json)
    (formed : (Json.object members).Formed) :
    (file.writable = true → (file.Keeps members ↔ (Json.object members).Writable) ∧
      (¬ (Json.object members).Writable → ∃ m torn,
        file.save (.object members) = (.error (.mishap m), torn) ∧
          ∀ name, torn.loadValue name = .ok (standard.answer name))) ∧
    (file.writable = false → ∃ fault kept,
      file.save (.object members) = (.error (.fault fault), kept) ∧ fault.kind = .configuration ∧
        ∀ name, kept.loadValue name = file.loadValue name) := by
  refine ⟨fun open' => ⟨⟨fun keeps => ?_, fun writable => ?_⟩, fun broken => ?_⟩, fun closed => ?_⟩
  · by_contra broken
    obtain ⟨m, torn, failed, _⟩ := save_of_not_writable open' formed broken
    obtain ⟨saved, written, _⟩ := keeps
    rw [failed] at written
    cases written
  · exact keeps_of_writable open' writable formed
  · obtain ⟨m, torn, failed, loaded⟩ := save_of_not_writable open' formed broken
    exact ⟨m, torn, failed, loadValue_of_load loaded⟩
  · obtain ⟨fault, failed, kind⟩ := save_of_closed closed (.object members)
    exact ⟨fault, file, failed, kind, fun _ => rfl⟩

def noteKey : Text := ['n', 'o', 't', 'e']

/-- Radians, and a note with half of a surrogate pair in it. -/
def halfNote : Table CodePoints Json :=
  [(radiansKey, .truth true), (noteKey, .text [.half 0])]

theorem formed_halfNote : (Json.object halfNote).Formed := by
  refine .object halfNote (by unfold Table.Distinct; decide) ?_
  simp only [halfNote, List.forall_mem_cons]
  exact ⟨.truth _, .text _, by simp⟩

theorem not_writable_of_note (inside : (↑noteKey, Json.text [.half 0]) ∈ members) :
    ¬ (Json.object members).Writable := by
  intro writable
  cases writable with
  | object _ _ all =>
    have note : (Json.text [.half 0]).Writable := all _ inside
    cases note with
    | text _ whole => exact whole 0 (.head _)

/-- After a note that cannot be written was saved with them, radians are off. -/
theorem save_keeps_halfNote : (Json.object halfNote).Formed ∧ ∃ m torn,
    SettingsFile.save ⟨[], none, true⟩ (.object halfNote) = (.error (.mishap m), torn) ∧
      torn.loadValue (.text radiansKey) = .ok (.truth false) := by
  obtain ⟨m, torn, failed, gives⟩ :=
    ((save_keeps_iff ⟨[], none, true⟩ halfNote formed_halfNote).1 rfl).2
      (not_writable_of_note (.tail _ (.head _)))
  exact ⟨formed_halfNote, m, torn, failed, gives _⟩

end SettingsFile

end Reckoner
