import Reckoner.Text.Character

set_option autoImplicit false

namespace Reckoner

/-- A code point: a character, or the half of a surrogate pair that is this far behind U+D800 and stands
alone. An escape can write such a half, but no file holds one. -/
inductive CodePoint where
  | char (c : Char)
  | half (n : Fin 0x800)
deriving DecidableEq

abbrev CodePoints := List CodePoint

instance : Coe Text CodePoints := ⟨fun t => t.map .char⟩

namespace CodePoint

def isHalf : CodePoint → Bool
  | char _ => false
  | half _ => true

/-- What stands for the code point where a text is read as a number, of which no half can be part. -/
def plain : CodePoint → Char
  | char c => c
  | half _ => '?'

/-- The code point that one UTF-16 code unit is. -/
def ofUnit (unit : Nat) : CodePoint :=
  if h : 0xD800 ≤ unit ∧ unit < 0xE000 then half ⟨unit - 0xD800, by omega⟩
  else char (Char.ofNat unit)

end CodePoint

namespace CodePoints

def text? : CodePoints → Option Text
  | [] => some []
  | .char c :: t => (text? t).map fun u => c :: u
  | .half _ :: _ => none

/-- The text as it is read as a number. -/
def plain (t : CodePoints) : Text := t.map CodePoint.plain

def IsText (t : CodePoints) : Prop := ∀ n, .half n ∉ t

theorem isText_coe (u : Text) : IsText u := by
  intro n member
  obtain ⟨c, _, same⟩ := List.mem_map.1 member
  cases same

theorem plain_coe (u : Text) : plain u = u := by
  unfold plain
  rw [List.map_map]
  exact List.map_id u

theorem coe_injective {t u : Text} (same : (t : CodePoints) = u) : t = u := by
  rw [← plain_coe t, ← plain_coe u, same]

theorem dropWhile_coe_append (u : Text) (t : CodePoints) :
    (u ++ t : CodePoints).dropWhile (!·.isHalf) = t.dropWhile (!·.isHalf) := by
  apply List.dropWhile_append_of_pos
  intro p member
  obtain ⟨c, _, rfl⟩ := List.mem_map.1 member
  rfl

theorem IsText.exists_coe {t : CodePoints} (h : t.IsText) : ∃ u : Text, t = u := by
  induction t with
  | nil => exact ⟨[], rfl⟩
  | cons p t ih =>
    obtain ⟨u, rfl⟩ := ih fun n member => h n (.tail _ member)
    cases p with
    | char c => exact ⟨c :: u, rfl⟩
    | half n => exact absurd (.head _) (h n)

/-- Otherwise there is a first half, behind characters. -/
theorem exists_half_of_not_isText {t : CodePoints} (h : ¬ t.IsText) :
    ∃ (u : Text) (n : Fin 0x800) (r : CodePoints), t = u ++ .half n :: r := by
  induction t with
  | nil => exact absurd (isText_coe []) h
  | cons p t ih =>
    cases p with
    | half n => exact ⟨[], n, t, rfl⟩
    | char c =>
      obtain ⟨u, n, r, rfl⟩ := ih fun whole => h fun n member => by
        rcases List.mem_cons.1 member with same | member
        · cases same
        · exact whole n member
      exact ⟨c :: u, n, r, rfl⟩

end CodePoints

end Reckoner
