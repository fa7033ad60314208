import Reckoner.Table

set_option autoImplicit false

namespace Reckoner.Table

variable {κ α : Type}

def names (table : Table κ α) : List κ := table.map Prod.fst

@[simp] theorem names_cons (entry : κ × α) (rest : Table κ α) :
    names (entry :: rest) = entry.1 :: rest.names := rfl

@[simp] theorem names_append (table other : Table κ α) :
    names (table ++ other) = table.names ++ other.names := List.map_append

variable [BEq κ] {table other front back : Table κ α} {name : κ} {value : α}

def Distinct (table : Table κ α) : Prop := table.names.Pairwise fun a b => (a == b) = false

theorem has_cons (key : κ) (kept : α) (rest : Table κ α) (name : κ) :
    has ((key, kept) :: rest) name = (name == key || rest.has name) := by
  unfold has
  rw [get?_cons]
  cases name == key <;> rfl

theorem has_eq_false_iff : table.has name = false ↔ ∀ key ∈ table.names, (name == key) = false := by
  induction table with
  | nil => exact iff_of_true rfl (fun _ member => by cases member)
  | cons entry rest ih =>
    obtain ⟨key, kept⟩ := entry
    rw [has_cons, Bool.or_eq_false_iff, ih, names_cons, List.forall_mem_cons]

theorem get?_eq_none_iff : table.get? name = none ↔ table.has name = false := by
  unfold has
  cases table.get? name <;> simp

theorem get?_eq_some_of_mem [EquivBEq κ] (distinct : table.Distinct) (member : (name, value) ∈ table) :
    table.get? name = some value := by
  unfold Distinct at distinct
  induction table with
  | nil => cases member
  | cons entry rest ih =>
    obtain ⟨key, kept⟩ := entry
    obtain ⟨first, later⟩ := List.pairwise_cons.1 distinct
    rw [get?_cons]
    rcases List.mem_cons.1 member with same | member
    · cases same
      rw [if_pos BEq.rfl]
    · have other : (key == name) = false := first name (List.mem_map_of_mem member)
      rw [BEq.comm] at other
      rw [if_neg (Bool.eq_false_iff.1 other)]
      exact ih later member

theorem mem_of_get? [LawfulBEq κ] (found : table.get? name = some value) : (name, value) ∈ table := by
  obtain ⟨front, back, rfl, _⟩ := List.lookup_eq_some_iff.1 found
  exact List.mem_append_right _ (.head _)

theorem distinct_nil : Distinct ([] : Table κ α) := List.Pairwise.nil

theorem distinct_cons {key : κ} {kept : α} {rest : Table κ α} :
    Distinct ((key, kept) :: rest) ↔ rest.has key = false ∧ rest.Distinct := by
  rw [has_eq_false_iff]
  exact List.pairwise_cons

theorem put_append_of_has_eq_false (new : front.has name = false) (back : Table κ α) (value : α) :
    put (front ++ back) name value = front ++ back.put name value := by
  induction front with
  | nil => rfl
  | cons entry rest ih =>
    obtain ⟨key, kept⟩ := entry
    rw [has_cons, Bool.or_eq_false_iff] at new
    rw [List.cons_append, put, if_neg (Bool.eq_false_iff.1 new.1), ih new.2]
    rfl

theorem put_of_has_eq_false (new : table.has name = false) (value : α) :
    table.put name value = table ++ [(name, value)] := by
  have put := put_append_of_has_eq_false new [] value
  rwa [List.append_nil] at put

theorem names_put (table : Table κ α) (name : κ) (value : α) : (table.put name value).names =
    if table.has name then table.names else table.names ++ [name] := by
  induction table with
  | nil => rfl
  | cons entry rest ih =>
    obtain ⟨key, kept⟩ := entry
    rw [has_cons, put]
    cases same : name == key with
    | true => rfl
    | false =>
      rw [if_neg (by decide), Bool.false_or, names_cons, ih]
      cases Table.has rest name <;> rfl

theorem Distinct.put [PartialEquivBEq κ] (distinct : table.Distinct) (name : κ) (value : α) :
    (table.put name value).Distinct := by
  unfold Distinct
  rw [names_put]
  cases new : table.has name with
  | true => exact distinct
  | false =>
    refine List.pairwise_append.2
      ⟨distinct, List.pairwise_singleton _ _, fun key member last same => ?_⟩
    cases List.mem_singleton.1 same
    rw [BEq.comm]
    exact has_eq_false_iff.1 new key member

theorem forall_mem_put {p : α → Prop} (all : ∀ entry ∈ table, p entry.2) (name : κ) (new : p value) :
    ∀ entry ∈ table.put name value, p entry.2 := by
  induction table with
  | nil => exact List.forall_mem_singleton.2 new
  | cons entry rest ih =>
    obtain ⟨key, kept⟩ := entry
    obtain ⟨first, later⟩ := List.forall_mem_cons.1 all
    rw [put]
    split
    · exact List.forall_mem_cons.2 ⟨new, later⟩
    · exact List.forall_mem_cons.2 ⟨first, ih later⟩

theorem forall_name_put {p : κ → Prop} (all : ∀ entry ∈ table, p entry.1) (value : α) (new : p name) :
    ∀ entry ∈ table.put name value, p entry.1 := by
  have names : ∀ key ∈ (table.put name value).names, p key := by
    rw [names_put]
    split
    · exact List.forall_mem_map.2 all
    · exact List.forall_mem_append.2 ⟨List.forall_mem_map.2 all, List.forall_mem_singleton.2 new⟩
  exact List.forall_mem_map.1 names

theorem names_overlay (table other : Table κ α) : table.names <+: (table.overlay other).names := by
  induction other generalizing table with
  | nil => exact List.prefix_rfl
  | cons entry other ih =>
    refine List.IsPrefix.trans ?_ (ih (table.put entry.1 entry.2))
    rw [names_put]
    cases table.has entry.1 with
    | true => exact List.prefix_rfl
    | false => exact List.prefix_append _ _

theorem Distinct.overlay [PartialEquivBEq κ] (distinct : table.Distinct) (other : Table κ α) :
    (table.overlay other).Distinct := by
  induction other generalizing table with
  | nil => exact distinct
  | cons entry other ih => exact ih (distinct.put entry.1 entry.2)

theorem get?_overlay [EquivBEq κ] (distinct : other.Distinct) (table : Table κ α) (name : κ) :
    (table.overlay other).get? name = (other.get? name).or (table.get? name) := by
  induction other generalizing table with
  | nil => rfl
  | cons entry other ih =>
    obtain ⟨key, kept⟩ := entry
    obtain ⟨new, distinct⟩ := distinct_cons.1 distinct
    have rest := ih distinct (table.put key kept)
    rw [get?_put] at rest
    rw [get?_cons]
    refine rest.trans ?_
    cases same : name == key with
    | true =>
      have later : Table.get? other name = none := by
        rw [get?_eq_none_iff, has_eq_false_iff]
        intro next member
        rw [BEq.congr_left same]
        exact has_eq_false_iff.1 new next member
      rw [later]
      rfl
    | false => rfl

/-- New names go to the end. -/
theorem overlay_of_distinct [PartialEquivBEq κ] (distinct : Distinct (table ++ other)) :
    table.overlay other = table ++ other := by
  induction other generalizing table with
  | nil => rw [List.append_nil]; rfl
  | cons entry other ih =>
    have apart := distinct
    rw [Distinct, names_append, List.pairwise_append] at apart
    have new : table.has entry.1 = false := by
      rw [has_eq_false_iff]
      intro key member
      rw [BEq.comm]
      exact apart.2.2 key member entry.1 List.mem_cons_self
    have step : table ++ entry :: other = (table ++ [entry]) ++ other := by simp
    rw [step] at distinct ⊢
    rw [← ih distinct, ← put_of_has_eq_false new]
    rfl

/-- Where all names come up already at their places, the values are those put over them. -/
theorem overlay_of_names_eq [EquivBEq κ] (same : table.names = other.names)
    (distinct : Distinct (front ++ other)) : overlay (front ++ table) other = front ++ other := by
  induction other generalizing front table with
  | nil =>
    rw [List.map_eq_nil_iff.1 same]
    rfl
  | cons entry other ih =>
    obtain ⟨key, value⟩ := entry
    cases table with
    | nil => cases same
    | cons first table =>
      obtain ⟨name, kept⟩ := first
      rw [names_cons, names_cons, List.cons.injEq] at same
      obtain ⟨rfl, same⟩ := same
      have new : front.has name = false := by
        rw [Distinct, names_append, List.pairwise_append] at distinct
        rw [has_eq_false_iff]
        intro key member
        rw [BEq.comm]
        exact distinct.2.2 key member name List.mem_cons_self
      have step : front ++ (name, value) :: other = (front ++ [(name, value)]) ++ other := by simp
      have put : put (front ++ (name, kept) :: table) name value =
          (front ++ [(name, value)]) ++ table := by
        rw [put_append_of_has_eq_false new, put, if_pos BEq.rfl, List.append_assoc]
        rfl
      rw [step] at distinct ⊢
      rw [← ih same distinct, ← put]
      rfl

/-- A table whose first names are those of another one stays when it is put over that. -/
theorem overlay_eq_self [EquivBEq κ] (distinct : other.Distinct) (first : table.names <+: other.names) :
    table.overlay other = other := by
  obtain ⟨later, same⟩ := first
  obtain ⟨front, back, rfl, names, _⟩ := List.map_eq_append_iff.1 same.symm
  have apart : Distinct front := by
    rw [Distinct, names_append, List.pairwise_append] at distinct
    exact distinct.1
  have put : overlay ([] ++ table) front = [] ++ front := overlay_of_names_eq names.symm apart
  rw [List.nil_append, List.nil_append] at put
  calc table.overlay (front ++ back)
      = (table.overlay front).overlay back := List.foldl_append
    _ = front ++ back := by rw [put, overlay_of_distinct distinct]

theorem forall_mem_overlay {p : α → Prop} (all : ∀ entry ∈ table, p entry.2)
    (later : ∀ entry ∈ other, p entry.2) : ∀ entry ∈ table.overlay other, p entry.2 := by
  induction other generalizing table with
  | nil => exact all
  | cons entry other ih =>
    obtain ⟨first, rest⟩ := List.forall_mem_cons.1 later
    exact ih (forall_mem_put all entry.1 first) rest

theorem forall_name_overlay {p : κ → Prop} (all : ∀ entry ∈ table, p entry.1)
    (later : ∀ entry ∈ other, p entry.1) : ∀ entry ∈ table.overlay other, p entry.1 := by
  induction other generalizing table with
  | nil => exact all
  | cons entry other ih =>
    obtain ⟨first, rest⟩ := List.forall_mem_cons.1 later
    exact ih (forall_name_put all entry.2 first) rest

section Rename

variable {κ' : Type} [BEq κ'] {f : κ → κ'}

/-- The table with other names. -/
def rename (f : κ → κ') (table : Table κ α) : Table κ' α := table.map fun entry => (f entry.1, entry.2)

variable (apart : ∀ a b, (f a == f b) = (a == b))
include apart

theorem get?_rename (table : Table κ α) (name : κ) :
    (table.rename f).get? (f name) = table.get? name := by
  induction table with
  | nil => rfl
  | cons entry rest ih =>
    obtain ⟨key, kept⟩ := entry
    rw [get?_cons, ← ih, ← apart]
    exact get?_cons (f name) (f key) kept (rename f rest)

theorem rename_put (table : Table κ α) (name : κ) (value : α) :
    (table.put name value).rename f = (table.rename f).put (f name) value := by
  induction table with
  | nil => rfl
  | cons entry rest ih =>
    obtain ⟨key, kept⟩ := entry
    have step : rename f ((key, kept) :: rest) = (f key, kept) :: rename f rest := rfl
    rw [step, put, put, apart]
    cases name == key with
    | true => rfl
    | false => exact congrArg (List.cons _) ih

theorem rename_overlay (table other : Table κ α) :
    (table.overlay other).rename f = (table.rename f).overlay (other.rename f) := by
  induction other generalizing table with
  | nil => rfl
  | cons entry other ih =>
    refine (ih (table.put entry.1 entry.2)).trans ?_
    rw [rename_put apart]
    rfl

end Rename

end Reckoner.Table
