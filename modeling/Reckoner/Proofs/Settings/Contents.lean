import Reckoner.Proofs.Settings.File

set_option autoImplicit false

namespace Reckoner

variable {file : SettingsFile} {settings settings' : Settings} {json : Json} {items : List Json}
  {position : Nat} {entry : Settings.Name × Json} {given : Settings}

namespace Settings

/-- What gives a setting in a list: two items of which the first can be a name, two characters, or an
object with two members, of which only the names count. -/
inductive Entry : Json → Name × Json → Prop where
  | items {json value : Json} {name : Name} (named : Name.ofJson? json = some name) :
    Entry (.array [json, value]) (name, value)
  | characters (c d : CodePoint) : Entry (.text [c, d]) (.text [c], .text [d])
  | members (first second : CodePoints × Json) :
    Entry (.object [first, second]) (.text first.1, .text second.1)

theorem map_eq_two {α β : Type} {f : α → β} {list : List α} {b c : β} (two : list.map f = [b, c]) :
    ∃ x y, list = [x, y] ∧ f x = b ∧ f y = c := by
  obtain ⟨x, rest, rfl, rfl, last⟩ := List.map_eq_cons_iff.1 two
  obtain ⟨y, empty, rfl, rfl, none⟩ := List.map_eq_cons_iff.1 last
  rw [List.map_eq_nil_iff.1 none]
  exact ⟨x, y, rfl, rfl, rfl⟩

theorem entry_of_pair {key value : Json} {name : Name} (found : pair position json = .ok (key, value))
    (named : Name.ofJson? key = some name) : Entry json (name, value) := by
  unfold pair at found
  dsimp only at found
  split at found
  next parts shape =>
    cases found
    cases json with
    | array items =>
      cases shape
      exact .items named
    | text t =>
      obtain ⟨c, d, rfl, rfl, rfl⟩ := map_eq_two (Option.some.inj shape)
      cases named
      exact .characters c d
    | object members =>
      obtain ⟨first, second, rfl, rfl, rfl⟩ := map_eq_two (Option.some.inj shape)
      cases named
      exact .members first second
    | null => contradiction
    | truth _ => contradiction
    | integer _ => contradiction
    | number _ => contradiction
  next => contradiction
  next => contradiction

theorem Entry.exists_pair (gives : Entry json entry) (position : Nat) :
    ∃ key, pair position json = .ok (key, entry.2) ∧ Name.ofJson? key = some entry.1 := by
  cases gives with
  | items named => exact ⟨_, rfl, named⟩
  | characters c d => exact ⟨_, rfl, rfl⟩
  | members first second => exact ⟨_, rfl, rfl⟩

/-- A list is put into settings just when each of its items is an entry. -/
theorem putEntries_eq_ok_iff : putEntries settings position items = .ok settings' ↔
    ∃ given, List.Forall₂ Entry items given ∧ settings' = settings.overlay given := by
  induction items generalizing settings position with
  | nil =>
    constructor
    · intro same
      cases same
      exact ⟨[], .nil, rfl⟩
    · rintro ⟨given, ⟨⟩, rfl⟩
      rfl
  | cons item items ih =>
    constructor
    · intro put
      obtain ⟨⟨key, value⟩, found, rest⟩ := bind_eq_ok put
      dsimp only at rest
      split at rest
      next name named =>
        obtain ⟨given, later, rfl⟩ := ih.1 rest
        exact ⟨(name, value) :: given, .cons (entry_of_pair found named) later, rfl⟩
      next => contradiction
    · rintro ⟨given, entries, rfl⟩
      cases entries with
      | cons first later =>
        obtain ⟨key, found, named⟩ := first.exists_pair position
        unfold putEntries
        simp only [found, bind, Except.bind, named]
        exact ih.2 ⟨_, later, rfl⟩

/-- One character is no entry. -/
theorem not_entry_character (c : CodePoint) : ¬ Entry (.text [c]) entry := by
  intro gives
  cases gives

/-- Only objects, lists of entries and the empty text are put over settings. -/
theorem overlayJson_eq_ok_iff : settings.overlayJson json = .ok settings' ↔
    (∃ members, json = .object members ∧ settings' = settings.overlay (ofMembers members)) ∨
    (json = .text [] ∧ settings' = settings) ∨
    ∃ items given, json = .array items ∧ List.Forall₂ Entry items given ∧
      settings' = settings.overlay given := by
  cases json with
  | object members => simp [overlayJson, eq_comm]
  | array items => simp [overlayJson, putEntries_eq_ok_iff]
  | text t =>
    cases t with
    | nil => simp [overlayJson, putEntries, eq_comm]
    | cons c s =>
      have failed : settings.overlayJson (.text (c :: s)) ≠ .ok settings' := by
        intro put
        obtain ⟨_, entries, _⟩ := putEntries_eq_ok_iff.1 put
        cases entries with
        | cons first _ => exact not_entry_character c first
      simp [failed]
  | null => simp [overlayJson]
  | truth b => simp [overlayJson]
  | integer n => simp [overlayJson]
  | number x => simp [overlayJson]

end Settings

namespace SettingsFile

open Settings

/-- The file is missing or holds no JSON. -/
def Blank (file : SettingsFile) : Prop :=
  ∀ t, file.content = some t → Json.read t = .error .malformed

/-- The file holds this value. -/
def Holds (file : SettingsFile) (json : Json) : Prop :=
  ∃ t, file.content = some t ∧ Json.read t = .ok json

/-- The settings that a file is meant to give: the members of an object put over the standard settings,
and the standard settings where it holds anything else. -/
def meant (file : SettingsFile) : Settings :=
  match file.content.map Json.read with
  | some (.ok (.object members)) => standard.overlay (ofMembers members)
  | _ => standard

/-- The settings that come of a file. There are none if it holds any other value, or no value because a
whole number in it is too long. -/
inductive Yields (file : SettingsFile) : Settings → Prop where
  | blank (blank : file.Blank) : Yields file standard
  | object {members : Table CodePoints Json} (holds : file.Holds (.object members)) :
    Yields file (standard.overlay (ofMembers members))
  | empty (holds : file.Holds (.text [])) : Yields file standard
  | entries {items : List Json} {given : Settings} (holds : file.Holds (.array items))
    (each : List.Forall₂ Entry items given) : Yields file (standard.overlay given)

theorem load_eq_ok_iff : file.load = .ok settings ↔ file.Yields settings := by
  unfold load
  constructor
  · intro loaded
    split at loaded
    next json read =>
      obtain ⟨t, content, read⟩ := Option.map_eq_some_iff.1 read
      have holds : file.Holds json := ⟨t, content, read⟩
      rcases overlayJson_eq_ok_iff.1 loaded with ⟨members, rfl, rfl⟩ | ⟨rfl, rfl⟩ |
        ⟨items, given, rfl, each, rfl⟩
      · exact .object holds
      · exact .empty holds
      · exact .entries holds each
    next => contradiction
    next read =>
      obtain ⟨t, content, read⟩ := Option.map_eq_some_iff.1 read
      cases loaded
      refine .blank fun u same => ?_
      rw [content, Option.some.injEq] at same
      rw [← same, read]
    next read =>
      cases loaded
      refine .blank fun u same => ?_
      rw [same] at read
      contradiction
  · have held {json : Json} (holds : file.Holds json) :
        file.content.map Json.read = some (.ok json) := by
      obtain ⟨t, content, read⟩ := holds
      rw [content, Option.map_some, read]
    intro yields
    cases yields with
    | blank blank =>
      cases content : file.content with
      | none => rfl
      | some t =>
        rw [Option.map_some, blank t content]
    | object holds => rw [held holds]; rfl
    | empty holds => rw [held holds]; rfl
    | entries holds each =>
      rw [held holds]
      exact overlayJson_eq_ok_iff.2 (.inr (.inr ⟨_, _, rfl, each, rfl⟩))

/-- Settings that begin like the standard ones are those if they come out as the same object. -/
theorem eq_standard_of_toJson (first : Table.names standard <+: Table.names settings)
    (same : settings.toJson = standard.toJson) : settings = standard := by
  unfold toJson at same
  rw [Json.object.injEq] at same
  have length := congrArg List.length same
  have values := congrArg (List.map Prod.snd) same
  rw [List.length_map, List.length_map] at length
  rw [List.map_map, List.map_map] at values
  have names : Table.names standard = Table.names settings := by
    apply first.eq_of_length
    rw [Table.names, Table.names, List.length_map, List.length_map, length]
  rw [List.zip_of_prod names.symm values]
  exact (List.zip_of_prod rfl rfl).symm

theorem meant_of_object {members : Table CodePoints Json} (holds : file.Holds (.object members)) :
    file.meant = standard.overlay (ofMembers members) := by
  obtain ⟨t, content, read⟩ := holds
  unfold meant
  rw [content, Option.map_some, read]

theorem meant_of_other (holds : file.Holds json) (other : json.members? = none) :
    file.meant = standard := by
  obtain ⟨t, content, read⟩ := holds
  unfold meant
  rw [content, Option.map_some, read]
  cases json with
  | object members => contradiction
  | _ => rfl

theorem meant_of_blank (blank : file.Blank) : file.meant = standard := by
  unfold meant
  cases content : file.content with
  | none => rfl
  | some t => rw [Option.map_some, blank t content]

theorem exists_loadValue_iff (name : Settings.Name) :
    (∃ value, file.loadValue name = .ok value) ↔ ∃ settings, file.load = .ok settings := by
  constructor
  · rintro ⟨value, given⟩
    obtain ⟨settings, loaded, _⟩ := bind_eq_ok given
    exact ⟨settings, loaded⟩
  · rintro ⟨settings, loaded⟩
    exact ⟨_, loadValue_of_load loaded name⟩

/-- A file gives every setting as it is meant just when it is missing, holds no JSON, an object or the
empty text, or a list of entries that leave the standard settings as they are. With other entries it
gives other settings; where a file yields none, no setting can be read. -/
theorem loadValue_meant_iff (file : SettingsFile) :
    ((∀ name, file.loadValue name = .ok (file.meant.answer name)) ↔
      file.Blank ∨ (∃ members, file.Holds (.object members)) ∨ file.Holds (.text []) ∨
        ∃ items given, file.Holds (.array items) ∧ List.Forall₂ Entry items given ∧
          standard.overlay given = standard) ∧
    (∀ settings, file.Yields settings → ∀ name, file.loadValue name = .ok (settings.answer name)) ∧
    ((¬ ∃ settings, file.Yields settings) → ∀ name, ∃ m, file.loadValue name = .error m) := by
  refine ⟨⟨fun gives => ?_, fun harmless => ?_⟩, fun settings yields name => ?_, fun none name => ?_⟩
  · obtain ⟨settings, loaded⟩ := (exists_loadValue_iff (.text allKey)).1 ⟨_, gives (.text allKey)⟩
    have all := gives (.text allKey)
    rw [loadValue_of_load loaded, Except.ok.injEq, answer, answer, if_pos BEq.rfl,
      if_pos BEq.rfl] at all
    cases load_eq_ok_iff.1 loaded with
    | blank blank => exact .inl blank
    | object holds => exact .inr (.inl ⟨_, holds⟩)
    | empty holds => exact .inr (.inr (.inl holds))
    | entries holds each =>
      rw [meant_of_other holds rfl] at all
      exact .inr (.inr (.inr ⟨_, _, holds, each,
        eq_standard_of_toJson (Table.names_overlay standard _) all⟩))
  · have yields : file.Yields file.meant := by
      rcases harmless with blank | ⟨members, holds⟩ | holds | ⟨items, given, holds, each, same⟩
      · rw [meant_of_blank blank]
        exact .blank blank
      · rw [meant_of_object holds]
        exact .object holds
      · rw [meant_of_other holds rfl]
        exact .empty holds
      · rw [meant_of_other holds rfl]
        have entries : file.Yields (standard.overlay given) := .entries holds each
        rwa [same] at entries
    exact loadValue_of_load (load_eq_ok_iff.2 yields)
  · exact loadValue_of_load (load_eq_ok_iff.2 yields) name
  · cases given : file.loadValue name with
    | error m => exact ⟨m, rfl⟩
    | ok value =>
      obtain ⟨settings, loaded⟩ := (exists_loadValue_iff name).1 ⟨value, given⟩
      exact absurd ⟨settings, load_eq_ok_iff.1 loaded⟩ none

/-- A list of one number is JSON, and from a file with it no setting can be read. -/
theorem loadValue_meant_list :
    let file : SettingsFile := ⟨[], some ['[', '1', ']'], true⟩
    file.Holds (.array [.integer 1]) ∧ (¬ ∃ settings, file.Yields settings) ∧
      ∀ name, ∃ m, file.loadValue name = .error m := by
  intro file
  have read : Json.read ['[', '1', ']'] = .ok (.array [.integer 1]) := rfl
  have none : ¬ ∃ settings, file.Yields settings := by
    rintro ⟨settings, yields⟩
    have loaded : file.load = .error .wrongSort := rfl
    rw [load_eq_ok_iff.2 yields] at loaded
    contradiction
  exact ⟨⟨_, rfl, read⟩, none, (loadValue_meant_iff file).2.2 none⟩

end SettingsFile

end Reckoner
