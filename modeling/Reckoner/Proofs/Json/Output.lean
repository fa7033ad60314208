import Reckoner.Json.Writer
import Reckoner.Proofs.Table

set_option autoImplicit false

namespace Reckoner.Json

variable {style : Style} {level : Nat} {lead : Text} {json : Json} {n : Int} {t : CodePoints}
  {items : List Json} {members : List (CodePoints × Json)}

namespace Output

variable {a b : Output}

theorem plain_append (u : Text) (b : Output) : plain u ++ b = ⟨u ++ b.text, b.mishap⟩ := rfl

theorem mishap_plain (u : Text) : (plain u).mishap = none := rfl

theorem text_plain_append (u : Text) (b : Output) : (plain u ++ b).text = u ++ b.text := rfl

@[simp] theorem nil_append (b : Output) : plain [] ++ b = b := rfl

theorem append_of_none (whole : a.mishap = none) (b : Output) : a ++ b = plain a.text ++ b := by
  obtain ⟨u, m⟩ := a
  cases whole
  rfl

theorem append_of_some {m : Mishap} (broken : a.mishap = some m) (b : Output) : a ++ b = a := by
  obtain ⟨u, m⟩ := a
  cases broken
  rfl

theorem append_assoc (a b c : Output) : a ++ b ++ c = a ++ (b ++ c) := by
  obtain ⟨u, _ | m⟩ := a
  · obtain ⟨v, _ | m⟩ := b
    · exact congrArg (Output.mk · c.mishap) (List.append_assoc u v c.text)
    · rfl
  · rfl

theorem ofPoints_coe (u : Text) : ofPoints u = plain u := by
  have none := CodePoints.dropWhile_coe_append u []
  rw [List.append_nil] at none
  unfold ofPoints
  rw [none, CodePoints.plain_coe]
  rfl

theorem mishap_append_eq_none_iff :
    (a ++ b).mishap = none ↔ a.mishap = none ∧ b.mishap = none := by
  obtain ⟨u, _ | m⟩ := a
  · exact (and_iff_right rfl).symm
  · exact iff_of_false nofun fun both => nomatch both.1

theorem text_append (whole : a.mishap = none) (b : Output) : (a ++ b).text = a.text ++ b.text := by
  rw [append_of_none whole]
  rfl

/-- Nothing is written of a text with half of a surrogate pair in it. -/
theorem exists_ofPoints (half : ¬ t.IsText) : ∃ m, ofPoints t = fail m := by
  obtain ⟨u, n, r, rfl⟩ := CodePoints.exists_half_of_not_isText half
  unfold ofPoints
  rw [CodePoints.dropWhile_coe_append]
  exact ⟨_, rfl⟩

end Output

/-- No two members of an object have one name. -/
inductive Formed : Json → Prop where
  | null : Formed null
  | truth (b : Bool) : Formed (truth b)
  | integer (n : Int) : Formed (integer n)
  | number (x : Float) : Formed (number x)
  | text (t : CodePoints) : Formed (text t)
  | array (items : List Json) (all : ∀ item ∈ items, Formed item) : Formed (array items)
  | object (members : Table CodePoints Json) (distinct : members.Distinct)
    (all : ∀ member ∈ members, Formed member.2) : Formed (object members)

/-- All of the value can be written: there is no half of a surrogate pair in a text or a name, and no
whole number is too long. -/
inductive Writable : Json → Prop where
  | null : Writable null
  | truth (b : Bool) : Writable (truth b)
  | integer (n : Int) (short : (Nat.toDigits 10 n.natAbs).length ≤ Numeral.maxDigits) :
    Writable (integer n)
  | number (x : Float) : Writable (number x)
  | text (t : CodePoints) (whole : t.IsText) : Writable (text t)
  | array (items : List Json) (all : ∀ item ∈ items, Writable item) : Writable (array items)
  | object (members : Table CodePoints Json) (names : ∀ member ∈ members, member.1.IsText)
    (all : ∀ member ∈ members, Writable member.2) : Writable (object members)

theorem exists_item_not_writable (broken : ¬ (array items).Writable) :
    ∃ item ∈ items, ¬ item.Writable := by
  refine Classical.byContradiction fun none => broken (.array items fun item member => ?_)
  exact Classical.byContradiction fun unwritable => none ⟨item, member, unwritable⟩

theorem exists_member_not_writable (broken : ¬ (object members).Writable) :
    ∃ member ∈ members, ¬ (member.1.IsText ∧ member.2.Writable) := by
  refine Classical.byContradiction fun none => ?_
  have each (member) (inside : member ∈ members) : member.1.IsText ∧ member.2.Writable :=
    Classical.byContradiction fun unwritable => none ⟨member, inside, unwritable⟩
  exact broken (.object members (fun member inside => (each member inside).1)
    fun member inside => (each member inside).2)

def inQuotes (u : Text) : Text := '"' :: u.flatMap writtenChar ++ ['"']

theorem writtenText_coe (u : Text) : writtenText u = inQuotes u := by
  have inside : (u : CodePoints).flatMap writtenPoint = u.flatMap writtenChar := by
    rw [List.flatMap_map, List.map_flatMap]
    rfl
  unfold writtenText inQuotes
  rw [inside, List.map_append]
  rfl

theorem not_isText_writtenText (half : ¬ t.IsText) (lead : Text) :
    ¬ CodePoints.IsText (lead ++ writtenText t) := by
  intro whole
  refine half fun n member => whole n ?_
  have inside : .half n ∈ t.flatMap writtenPoint := List.mem_flatMap.2 ⟨_, member, .head _⟩
  simp [writtenText, inside]

/-- The text of a value, as far as it is written. -/
def layout (style : Style) (level : Nat) (json : Json) : Text := (write style level [] json).text

/-- What is behind another text is written there as it is alone, or it fails in both places. -/
theorem write_lead (style : Style) (level : Nat) (lead : Text) (json : Json) :
    write style level lead json = .plain lead ++ write style level [] json ∨
      ∃ m m', write style level lead json = .fail m ∧ write style level [] json = .fail m' := by
  cases json with
  | null => exact .inl rfl
  | truth b => cases b <;> exact .inl rfl
  | number x => exact .inl rfl
  | integer n =>
    unfold write Output.whole
    split
    · exact .inr ⟨_, _, rfl, rfl⟩
    · exact .inl rfl
  | text t =>
    by_cases whole : t.IsText
    · obtain ⟨u, rfl⟩ := whole.exists_coe
      have written (lead : Text) : write style level lead (.text u) = .plain (lead ++ inQuotes u) := by
        unfold write
        rw [writtenText_coe, ← List.map_append, Output.ofPoints_coe]
      rw [written, written]
      exact .inl rfl
    · obtain ⟨m, failed⟩ := Output.exists_ofPoints (not_isText_writtenText whole lead)
      obtain ⟨m', failed'⟩ := Output.exists_ofPoints (not_isText_writtenText whole [])
      exact .inr ⟨m, m', failed, failed'⟩
  | array items =>
    cases items with
    | nil => exact .inl rfl
    | cons item items =>
      refine .inl ?_
      simp only [write, Output.append_assoc, Output.nil_append]
  | object members =>
    cases members with
    | nil => exact .inl rfl
    | cons member members =>
      refine .inl ?_
      obtain ⟨name, value⟩ := member
      simp only [write, ← Output.append_assoc]
      rfl

theorem mishap_writeItems
    (each : ∀ item ∈ items, ∀ level lead, (write style level lead item).mishap = none) (level : Nat) :
    (writeItems style level items).mishap = none := by
  induction items with
  | nil => rfl
  | cons item items ih =>
    obtain ⟨first, later⟩ := List.forall_mem_cons.1 each
    exact Output.mishap_append_eq_none_iff.2 ⟨first _ _, ih later⟩

theorem mishap_ofPoints_writtenText (whole : t.IsText) : (Output.ofPoints (writtenText t)).mishap = none := by
  obtain ⟨u, rfl⟩ := whole.exists_coe
  rw [writtenText_coe, Output.ofPoints_coe]
  rfl

theorem mishap_writeMembers (names : ∀ member ∈ members, member.1.IsText)
    (each : ∀ member ∈ members, ∀ level lead, (write style level lead member.2).mishap = none)
    (level : Nat) : (writeMembers style level members).mishap = none := by
  induction members with
  | nil => rfl
  | cons member members ih =>
    obtain ⟨name, value⟩ := member
    obtain ⟨first, later⟩ := List.forall_mem_cons.1 each
    obtain ⟨named, others⟩ := List.forall_mem_cons.1 names
    simp only [writeMembers, Output.mishap_append_eq_none_iff, mishap_ofPoints_writtenText named,
      first, ih others later, Output.mishap_plain, and_self]

theorem Writable.mishap_write (writable : json.Writable) (style : Style) (level : Nat) (lead : Text) :
    (write style level lead json).mishap = none := by
  induction writable generalizing level lead with
  | null => rfl
  | truth b => cases b <;> rfl
  | integer n short =>
    unfold write Output.whole
    rw [if_neg (Nat.not_lt.2 short)]
    rfl
  | number x => rfl
  | text t whole =>
    obtain ⟨u, rfl⟩ := whole.exists_coe
    unfold write
    rw [writtenText_coe, ← List.map_append, Output.ofPoints_coe]
    rfl
  | array items _ each =>
    cases items with
    | nil => rfl
    | cons item items =>
      obtain ⟨first, later⟩ := List.forall_mem_cons.1 each
      simp only [write, Output.mishap_append_eq_none_iff, first, mishap_writeItems later,
        Output.mishap_plain, and_self]
  | object members names _ each =>
    cases members with
    | nil => rfl
    | cons member members =>
      obtain ⟨name, value⟩ := member
      obtain ⟨first, later⟩ := List.forall_mem_cons.1 each
      obtain ⟨named, others⟩ := List.forall_mem_cons.1 names
      simp only [write, Output.mishap_append_eq_none_iff, mishap_ofPoints_writtenText named, first,
        mishap_writeMembers others later, Output.mishap_plain, and_self]

/-- What can be written is. -/
theorem Writable.write_eq (writable : json.Writable) (style : Style) (level : Nat) (lead : Text) :
    write style level lead json = .plain (lead ++ layout style level json) := by
  rcases write_lead style level lead json with behind | ⟨m, _, failed, _⟩
  · rw [behind, Output.plain_append, writable.mishap_write]
    rfl
  · have none := writable.mishap_write style level lead
    rw [failed] at none
    contradiction

theorem layout_text (u : Text) : layout style level (text u) = inQuotes u := by
  unfold layout write
  rw [List.map_nil, List.nil_append, writtenText_coe, Output.ofPoints_coe]
  rfl

theorem layout_integer (short : (Nat.toDigits 10 n.natAbs).length ≤ Numeral.maxDigits) :
    layout style level (integer n) = (toString n).toList := by
  unfold layout write Output.whole
  rw [if_neg (Nat.not_lt.2 short)]
  rfl

theorem Writable.text_append (writable : json.Writable) (b : Output) :
    (write style level lead json ++ b).text = lead ++ (layout style level json ++ b.text) := by
  rw [writable.write_eq, Output.plain_append, List.append_assoc]

def layoutItems (style : Style) (level : Nat) (items : List Json) : Text :=
  (writeItems style level items).text

def layoutMembers (style : Style) (level : Nat) (members : List (CodePoints × Json)) : Text :=
  (writeMembers style level members).text

@[simp] theorem layoutItems_nil : layoutItems style level [] = [] := rfl

@[simp] theorem layoutMembers_nil : layoutMembers style level [] = [] := rfl

theorem layoutItems_cons (writable : json.Writable) (style : Style) (level : Nat)
    (items : List Json) : layoutItems style level (json :: items) =
      ',' :: (style.newline level ++ (layout style level json ++ layoutItems style level items)) :=
  writable.text_append _

theorem layout_array (writable : ∀ item ∈ json :: items, item.Writable) (style : Style)
    (level : Nat) : layout style level (array (json :: items)) =
      '[' :: (style.newline (level + 1) ++ (layout style (level + 1) json ++
        (layoutItems style (level + 1) items ++ (style.newline level ++ [']'])))) := by
  obtain ⟨first, later⟩ := List.forall_mem_cons.1 writable
  have whole : (writeItems style (level + 1) items).mishap = none :=
    mishap_writeItems (fun item member => (later item member).mishap_write style) _
  simp only [layout, write, Output.nil_append, Output.append_assoc, first.text_append,
    Output.text_append whole, List.cons_append]
  rfl

theorem layoutMembers_cons {u : Text} (writable : json.Writable) (style : Style) (level : Nat)
    (members : List (CodePoints × Json)) : layoutMembers style level ((u, json) :: members) =
      ',' :: (style.newline level ++ (inQuotes u ++ (style.colon ++
        (layout style level json ++ layoutMembers style level members)))) := by
  simp only [layoutMembers, writeMembers, writtenText_coe, Output.ofPoints_coe, Output.append_assoc,
    Output.text_plain_append, writable.text_append, List.cons_append, List.nil_append]

theorem layout_object {u : Text} (names : ∀ member ∈ members, member.1.IsText)
    (writable : ∀ member ∈ (↑u, json) :: members, member.2.Writable) (style : Style) (level : Nat) :
    layout style level (object ((u, json) :: members)) =
      '{' :: (style.newline (level + 1) ++ (inQuotes u ++ (style.colon ++
        (layout style (level + 1) json ++ (layoutMembers style (level + 1) members ++
          (style.newline level ++ ['}'])))))) := by
  obtain ⟨first, later⟩ := List.forall_mem_cons.1 writable
  have first : json.Writable := first
  have whole : (writeMembers style (level + 1) members).mishap = none :=
    mishap_writeMembers names (fun member inside => (later member inside).mishap_write style) _
  simp only [layout, write, writtenText_coe, Output.ofPoints_coe, Output.append_assoc,
    Output.text_plain_append, first.text_append, Output.text_append whole, List.cons_append,
    List.nil_append]
  rfl

end Reckoner.Json
