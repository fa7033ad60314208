import Reckoner.Proofs.Json.ReadBack

set_option autoImplicit false

namespace Reckoner.Json

variable {style : Style} {level fuel : Nat} {json : Json} {items : List Json} {t : Text}
  {name : CodePoints} {members : Table CodePoints Json} {o : Output} {α : Type} {bound : Nat}
  {reads : Nat → Text → Except ReadError α}

namespace Output

theorem exists_text_append (a b : Output) : ∃ r, (a ++ b).text = a.text ++ r := by
  cases broken : a.mishap with
  | none => exact ⟨b.text, text_append broken b⟩
  | some m => exact ⟨[], by rw [append_of_some broken, List.append_nil]⟩

/-- The output broke off, and this reader finds no value in what was written before. -/
structure BreaksOff (o : Output) (reads : Nat → Text → Except ReadError α) (bound : Nat) : Prop where
  mishap : ∃ m, o.mishap = some m
  reads : ∀ fuel, 2 * o.text.length + bound ≤ fuel → reads fuel o.text = .error .malformed

theorem breaksOff_fail (m : Mishap) (nothing : ∀ fuel, reads fuel [] = .error .malformed) :
    (fail m).BreaksOff reads bound :=
  ⟨⟨m, rfl⟩, fun fuel _ => nothing fuel⟩

theorem BreaksOff.append (breaks : o.BreaksOff reads bound) (b : Output) :
    (o ++ b).BreaksOff reads bound := by
  obtain ⟨m, broken⟩ := breaks.mishap
  rw [append_of_some broken]
  exact breaks

end Output

/-- The value breaks off where it is written. -/
def BreaksOff (style : Style) (json : Json) : Prop :=
  ∀ level, (write style level [] json).BreaksOff readValue 0

theorem readValue_nil (fuel : Nat) : readValue fuel [] = .error .malformed := by
  cases fuel <;> rfl

theorem readMembers_nil (fuel : Nat) (before : Table CodePoints Json) :
    readMembers fuel before [] = .error .malformed := by
  cases fuel <;> rfl

/-- There is nothing where a value begins, or neither white space nor a closing bracket, whatever
follows the value. -/
theorem text_write_append_cases (style : Style) (level : Nat) (json : Json) (b : Output) :
    (write style level [] json ++ b).text = [] ∨
      ∃ c s, (write style level [] json ++ b).text = c :: s ∧ isSpace c = false ∧ c ≠ ']' := by
  rcases write_begins style level json with ⟨m, failed⟩ | opens
  · rw [failed]
    exact .inl rfl
  · obtain ⟨r, text⟩ := Output.exists_text_append (write style level [] json) b
    obtain ⟨c, s, shape, other, shut⟩ := exists_cons_of_opensValue opens
    have shape : (write style level [] json).text = c :: s := shape
    rw [text, shape]
    exact .inr ⟨c, s ++ r, rfl, other, shut⟩

theorem skipSpace_write_append (style : Style) (level : Nat) (json : Json) (b : Output) :
    skipSpace (write style level [] json ++ b).text = (write style level [] json ++ b).text := by
  rcases text_write_append_cases style level json b with none | ⟨c, s, shape, other, _⟩
  · rw [none]
    rfl
  · rw [shape]
    exact skipSpace_of_stop other

theorem text_write_append_ne (style : Style) (level : Nat) (json : Json) (b : Output) (r : Text) :
    (write style level [] json ++ b).text ≠ ']' :: r := by
  rcases text_write_append_cases style level json b with none | ⟨c, s, shape, _, shut⟩
  · simp [none]
  · rw [shape]
    exact fun same => shut (List.cons.inj same).1

theorem breaksOff_item (breaks : BreaksOff style json) (b : Output) :
    (write style level [] json ++ b).BreaksOff readItems 1 := by
  refine Output.BreaksOff.append ⟨(breaks level).mishap, fun fuel enough => ?_⟩ b
  obtain ⟨fuel, rfl⟩ : ∃ n, fuel = n + 1 := Nat.exists_eq_succ_of_ne_zero (by omega)
  unfold readItems
  rw [(breaks level).reads fuel (by omega)]
  rfl

/-- What follows a comma is read, if there is anything. -/
theorem breaksOff_behind_item (spaced : style.Spaced) {next : Json} (whole : json.Writable)
    (back : ReadsBack style json)
    (rest : (write style level [] next ++ writeItems style level items).BreaksOff readItems 1) :
    (write style level [] json ++ writeItems style level (next :: items)).BreaksOff readItems 1 := by
  obtain ⟨⟨m, broken⟩, reads⟩ := rest
  rw [whole.write_eq, List.nil_append, Output.plain_append, writeItems]
  rcases write_lead style level (',' :: style.newline level) next with behind | ⟨m', _, failed, _⟩
  · rw [behind, Output.append_assoc]
    refine ⟨⟨m, broken⟩, fun fuel enough => ?_⟩
    obtain ⟨fuel, rfl⟩ : ∃ n, fuel = n + 1 := Nat.exists_eq_succ_of_ne_zero (by omega)
    simp only [Output.text_plain_append, List.length_append, List.length_cons] at enough ⊢
    have first := back level fuel (',' :: (style.newline level ++
      (write style level [] next ++ writeItems style level items).text)) (by omega) rfl
    rw [List.cons_append, readItems_comma first (spaced.newline level)
      (skipSpace_write_append style level next _), reads fuel (by omega)]
    rfl
  · rw [failed]
    refine ⟨⟨m', rfl⟩, fun fuel enough => ?_⟩
    obtain ⟨fuel, rfl⟩ : ∃ n, fuel = n + 1 := Nat.exists_eq_succ_of_ne_zero (by omega)
    have first := back level fuel [] (by rw [List.length_append] at enough; omega) rfl
    have text : (Output.fail m' ++ writeItems style level items).text = [] := rfl
    rw [text]
    simp only [readItems, first, bind, Except.bind]
    rfl

/-- Items break off at the first one that does. -/
theorem breaksOff_items (spaced : style.Spaced)
    (back : ∀ item ∈ json :: items, item.Writable → ReadsBack style item)
    (breaks : ∀ item ∈ json :: items, ¬ item.Writable → BreaksOff style item)
    (broken : ∃ item ∈ json :: items, ¬ item.Writable) (level : Nat) :
    (write style level [] json ++ writeItems style level items).BreaksOff readItems 1 := by
  induction items generalizing json with
  | nil =>
    obtain ⟨item, member, unwritable⟩ := broken
    rw [List.mem_singleton.1 member] at unwritable
    exact breaksOff_item (breaks json (.head _) unwritable) _
  | cons next items ih =>
    by_cases whole : json.Writable
    · have later : ∃ item ∈ next :: items, ¬ item.Writable := by
        obtain ⟨item, member, unwritable⟩ := broken
        rcases List.mem_cons.1 member with rfl | member
        · exact absurd whole unwritable
        · exact ⟨item, member, unwritable⟩
      exact breaksOff_behind_item spaced whole (back json (.head _) whole)
        (ih (fun item member => back item (.tail _ member))
          (fun item member => breaks item (.tail _ member)) later)
    · exact breaksOff_item (breaks json (.head _) whole) _

theorem breaksOff_array (spaced : style.Spaced)
    (back : ∀ item ∈ items, item.Writable → ReadsBack style item)
    (breaks : ∀ item ∈ items, ¬ item.Writable → BreaksOff style item)
    (broken : ¬ (array items).Writable) : BreaksOff style (array items) := by
  intro level
  cases items with
  | nil => exact absurd (.array [] (by simp)) broken
  | cons item items =>
    obtain ⟨⟨m, mishap⟩, reads⟩ := breaksOff_items spaced back breaks
      (exists_item_not_writable broken) (level + 1)
    unfold write
    rcases write_lead style (level + 1) ('[' :: style.newline (level + 1)) item with
      behind | ⟨m', _, failed, _⟩
    · have inside : (.plain ('[' :: style.newline (level + 1)) ++ (write style (level + 1) [] item ++
          writeItems style (level + 1) items) : Output).BreaksOff readValue 0 := by
        refine ⟨⟨m, mishap⟩, fun fuel enough => ?_⟩
        rw [Output.text_plain_append, List.length_append, List.length_cons] at enough
        obtain ⟨fuel, rfl⟩ : ∃ n, fuel = n + 1 := Nat.exists_eq_succ_of_ne_zero (by omega)
        rw [Output.text_plain_append, List.cons_append, readValue_items (spaced.newline (level + 1))
          (skipSpace_write_append style (level + 1) item _)
          (text_write_append_ne style (level + 1) item _), reads fuel (by omega)]
        rfl
      rw [behind, Output.nil_append, Output.append_assoc (.plain _)]
      exact inside.append _
    · rw [failed]
      exact Output.breaksOff_fail m' readValue_nil

def membersFrom (style : Style) (level : Nat) (name : CodePoints) (json : Json)
    (members : List (CodePoints × Json)) : Output :=
  .ofPoints (writtenText name) ++ (.plain style.colon ++
    (write style level [] json ++ writeMembers style level members))

theorem writeMembers_cons (style : Style) (level : Nat) (name : CodePoints) (json : Json)
    (members : List (CodePoints × Json)) : writeMembers style level ((name, json) :: members) =
      .plain (',' :: style.newline level) ++ membersFrom style level name json members := by
  simp only [writeMembers, membersFrom, Output.append_assoc]

theorem membersFrom_coe (u : Text) : membersFrom style level u json members =
    .plain (inQuotes u) ++ (.plain style.colon ++
      (write style level [] json ++ writeMembers style level members)) := by
  rw [membersFrom, writtenText_coe, Output.ofPoints_coe]

theorem exists_membersFrom (half : ¬ name.IsText) (style : Style) (level : Nat) (json : Json)
    (members : List (CodePoints × Json)) : ∃ m, membersFrom style level name json members = .fail m := by
  obtain ⟨m, failed⟩ := Output.exists_ofPoints (not_isText_writtenText half [])
  exact ⟨m, by rw [membersFrom]; exact congrArg (· ++ _) failed⟩

theorem text_membersFrom_cases (style : Style) (level : Nat) (name : CodePoints) (json : Json)
    (members : List (CodePoints × Json)) : (membersFrom style level name json members).text = [] ∨
      ∃ s, (membersFrom style level name json members).text = '"' :: s := by
  by_cases whole : name.IsText
  · obtain ⟨u, rfl⟩ := whole.exists_coe
    rw [membersFrom_coe]
    exact .inr ⟨_, rfl⟩
  · obtain ⟨m, failed⟩ := exists_membersFrom whole style level json members
    rw [failed]
    exact .inl rfl

theorem skipSpace_membersFrom (style : Style) (level : Nat) (name : CodePoints) (json : Json)
    (members : List (CodePoints × Json)) :
    skipSpace (membersFrom style level name json members).text =
      (membersFrom style level name json members).text := by
  rcases text_membersFrom_cases style level name json members with none | ⟨s, shape⟩
  · rw [none]
    rfl
  · rw [shape]
    exact skipSpace_of_stop rfl

theorem text_membersFrom_ne (style : Style) (level : Nat) (name : CodePoints) (json : Json)
    (members : List (CodePoints × Json)) (r : Text) :
    (membersFrom style level name json members).text ≠ '}' :: r := by
  rcases text_membersFrom_cases style level name json members with none | ⟨s, shape⟩
  · simp [none]
  · simp [shape]

def MembersBreakOff (o : Output) : Prop :=
  ∀ before, o.BreaksOff (fun fuel => readMembers fuel before) 1

theorem membersBreakOff_of_name (half : ¬ name.IsText) :
    MembersBreakOff (membersFrom style level name json members) := by
  intro before
  obtain ⟨m, failed⟩ := exists_membersFrom half style level json members
  rw [failed]
  exact Output.breaksOff_fail m fun fuel => readMembers_nil fuel before

theorem membersBreakOff_of_value (spaced : style.Spaced) (u : Text)
    (breaks : BreaksOff style json) : MembersBreakOff (membersFrom style level u json members) := by
  intro before
  obtain ⟨⟨m, broken⟩, reads⟩ := (breaks level).append (writeMembers style level members)
  rw [membersFrom_coe]
  refine ⟨⟨m, broken⟩, fun fuel enough => ?_⟩
  obtain ⟨fuel, rfl⟩ : ∃ n, fuel = n + 1 := Nat.exists_eq_succ_of_ne_zero (by omega)
  simp only [Output.text_plain_append, List.length_append] at enough ⊢
  rw [readMembers_name spaced (skipSpace_write_append style level json _), reads fuel (by omega)]
  rfl

/-- What follows a comma is read, if there is anything. -/
theorem membersBreakOff_behind (spaced : style.Spaced) (u : Text) (whole : json.Writable)
    (back : ReadsBack style json) {next : Json}
    (rest : MembersBreakOff (membersFrom style level name next members)) :
    MembersBreakOff (membersFrom style level u json ((name, next) :: members)) := by
  intro before
  obtain ⟨⟨m, broken⟩, reads⟩ := rest (before.put u json)
  rw [membersFrom_coe, writeMembers_cons, whole.write_eq, List.nil_append]
  refine ⟨⟨m, broken⟩, fun fuel enough => ?_⟩
  obtain ⟨fuel, rfl⟩ : ∃ n, fuel = n + 1 := Nat.exists_eq_succ_of_ne_zero (by omega)
  simp only [Output.text_plain_append, List.length_append, List.length_cons] at enough ⊢
  have first := back level fuel (',' :: (style.newline level ++
    (membersFrom style level name next members).text)) (by omega) rfl
  rw [readMembers_name spaced (whole.skipSpace_layout style level _), List.cons_append, first]
  simp only [Except.bind, skipSpace_of_stop (r := ',' :: _) rfl, skipSpace_append (spaced.newline level),
    skipSpace_membersFrom, reads fuel (by omega)]

/-- Members break off at the first name or value that does. -/
theorem membersBreakOff (spaced : style.Spaced)
    (back : ∀ member ∈ (name, json) :: members, member.2.Writable → ReadsBack style member.2)
    (breaks : ∀ member ∈ (name, json) :: members, ¬ member.2.Writable → BreaksOff style member.2)
    (broken : ∃ member ∈ (name, json) :: members, ¬ (member.1.IsText ∧ member.2.Writable))
    (level : Nat) : MembersBreakOff (membersFrom style level name json members) := by
  induction members generalizing name json with
  | nil =>
    obtain ⟨member, inside, unwritable⟩ := broken
    rw [List.mem_singleton.1 inside] at unwritable
    by_cases text : name.IsText
    · obtain ⟨u, rfl⟩ := text.exists_coe
      exact membersBreakOff_of_value spaced u
        (breaks (u, json) (.head _) fun whole => unwritable ⟨text, whole⟩)
    · exact membersBreakOff_of_name text
  | cons next members ih =>
    by_cases text : name.IsText
    · obtain ⟨u, rfl⟩ := text.exists_coe
      by_cases whole : json.Writable
      · have later : ∃ member ∈ next :: members, ¬ (member.1.IsText ∧ member.2.Writable) := by
          obtain ⟨member, inside, unwritable⟩ := broken
          rcases List.mem_cons.1 inside with rfl | inside
          · exact absurd ⟨text, whole⟩ unwritable
          · exact ⟨member, inside, unwritable⟩
        exact membersBreakOff_behind spaced u whole (back (u, json) (.head _) whole)
          (ih (fun member inside => back member (.tail _ inside))
            (fun member inside => breaks member (.tail _ inside)) later)
      · exact membersBreakOff_of_value spaced u (breaks (u, json) (.head _) whole)
    · exact membersBreakOff_of_name text

theorem breaksOff_object (spaced : style.Spaced)
    (back : ∀ member ∈ members, member.2.Writable → ReadsBack style member.2)
    (breaks : ∀ member ∈ members, ¬ member.2.Writable → BreaksOff style member.2)
    (broken : ¬ (object members).Writable) : BreaksOff style (object members) := by
  intro level
  cases members with
  | nil => exact absurd (.object [] (by simp) (by simp)) broken
  | cons member members =>
    obtain ⟨name, json⟩ := member
    obtain ⟨⟨m, mishap⟩, reads⟩ := membersBreakOff spaced back breaks (exists_member_not_writable broken)
      (level + 1) []
    have inside : (.plain ('{' :: style.newline (level + 1)) ++
        membersFrom style (level + 1) name json members : Output).BreaksOff readValue 0 := by
      refine ⟨⟨m, mishap⟩, fun fuel enough => ?_⟩
      rw [Output.text_plain_append, List.length_append, List.length_cons] at enough
      obtain ⟨fuel, rfl⟩ : ∃ n, fuel = n + 1 := Nat.exists_eq_succ_of_ne_zero (by omega)
      rw [Output.text_plain_append, List.cons_append, readValue_members (spaced.newline (level + 1))
        (skipSpace_membersFrom style (level + 1) name json members)
        (text_membersFrom_ne style (level + 1) name json members), reads fuel (by omega)]
      rfl
    have shape : write style level [] (object ((name, json) :: members)) =
        .plain ('{' :: style.newline (level + 1)) ++
          membersFrom style (level + 1) name json members ++ .plain (style.newline level ++ ['}']) := by
      simp only [write, membersFrom, Output.append_assoc, List.nil_append]
    rw [shape]
    exact inside.append _

/-- A value that cannot be written breaks off. -/
theorem Formed.breaksOff (formed : json.Formed) (spaced : style.Spaced) (broken : ¬ json.Writable) :
    BreaksOff style json := by
  induction formed with
  | null => exact absurd .null broken
  | truth b => exact absurd (.truth b) broken
  | number x => exact absurd (.number x) broken
  | integer n =>
    intro level
    have long : Numeral.maxDigits < (Nat.toDigits 10 n.natAbs).length :=
      Nat.lt_of_not_le fun short => broken (.integer n short)
    unfold write Output.whole
    rw [if_pos long]
    exact Output.breaksOff_fail _ readValue_nil
  | text t =>
    intro level
    have half : ¬ t.IsText := fun whole => broken (.text t whole)
    obtain ⟨m, failed⟩ := Output.exists_ofPoints (not_isText_writtenText half [])
    unfold write
    rw [failed]
    exact Output.breaksOff_fail m readValue_nil
  | array items all each =>
    exact breaksOff_array spaced
      (fun item member whole => whole.readsBack (all item member) spaced) each broken
  | object members _ all each =>
    exact breaksOff_object spaced
      (fun member inside whole => whole.readsBack (all member inside) spaced) each broken

/-- Nothing can be read from what is written of a value that breaks off. -/
theorem Formed.read_layout (formed : json.Formed) (spaced : style.Spaced) (broken : ¬ json.Writable)
    (level : Nat) : ∃ m, (write style level [] json).mishap = some m ∧
      read (layout style level json) = .error .malformed := by
  obtain ⟨⟨m, mishap⟩, reads⟩ := formed.breaksOff spaced broken level
  have start := skipSpace_write_append style level json (.fail m)
  rw [Output.append_of_some mishap] at start
  refine ⟨m, mishap, ?_⟩
  unfold read layout
  rw [start, reads _ (by omega)]
  rfl

end Reckoner.Json
