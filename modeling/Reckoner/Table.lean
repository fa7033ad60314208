set_option autoImplicit false

/- Tables: named values in the order in which their names first came up. Giving a value to a name
that the table has keeps the name's place. Names that are equal under `==` are one name, of which
the table keeps the spelling that came first. -/
namespace Reckoner

abbrev Table (κ α : Type) := List (κ × α)

namespace Table

variable {κ α : Type} [BEq κ]

def get? (table : Table κ α) (name : κ) : Option α := table.lookup name

def has (table : Table κ α) (name : κ) : Bool := (table.get? name).isSome

def put (table : Table κ α) (name : κ) (value : α) : Table κ α :=
  match table with
  | [] => [(name, value)]
  | (other, kept) :: rest =>
    if name == other then (other, value) :: rest else (other, kept) :: put rest name value

/-- The table with all values of another one put into it, from the first to the last. -/
def overlay (table other : Table κ α) : Table κ α := other.foldl (fun t e => t.put e.1 e.2) table

@[simp] theorem get?_nil (name : κ) : get? ([] : Table κ α) name = none := rfl

theorem get?_cons (name other : κ) (value : α) (rest : Table κ α) :
    get? ((other, value) :: rest) name =
      if name == other then some value else get? rest name := by
  unfold get?
  rw [List.lookup_cons]
  cases name == other <;> rfl

theorem get?_put [EquivBEq κ] (table : Table κ α) (name other : κ) (value : α) :
    (table.put name value).get? other =
      if other == name then some value else table.get? other := by
  induction table with
  | nil => simp [put, get?_cons]
  | cons entry rest ih =>
    obtain ⟨key, kept⟩ := entry
    cases same : name == key with
    | true =>
      rw [put, if_pos same, get?_cons, get?_cons, BEq.congr_right same]
      cases other == key <;> rfl
    | false =>
      rw [put, if_neg (by simp [same]), get?_cons, get?_cons, ih]
      cases h : other == key with
      | false => rfl
      | true =>
        have : (other == name) = false := by rw [BEq.congr_left h, BEq.comm, same]
        simp [this]

end Table

end Reckoner
