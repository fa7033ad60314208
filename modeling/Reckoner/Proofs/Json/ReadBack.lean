import Reckoner.Proofs.Json.Scalars
import Reckoner.Proofs.Outcome
import Reckoner.Proofs.Table

set_option autoImplicit false

namespace Reckoner.Json

variable {style : Style} {level fuel : Nat} {json : Json} {items : List Json} {t r gap : Text}
  {c : Char}

theorem skipSpace_append (space : ∀ c ∈ gap, isSpace c = true) (r : Text) :
    skipSpace (gap ++ r) = skipSpace r := List.dropWhile_append_of_pos space

theorem skipSpace_of_stop (stop : startsWith isSpace r = false) : skipSpace r = r := by
  cases r with
  | nil => rfl
  | cons c s => exact List.dropWhile_cons_of_neg (Bool.eq_false_iff.1 stop)

/-- No number goes on with white space. -/
theorem not_continuesNumber_of_isSpace (space : isSpace c = true) : continuesNumber c = false := by
  simp only [isSpace, Bool.or_eq_true, beq_iff_eq] at space
  rcases space with ((rfl | rfl) | rfl) | rfl <;> decide

theorem stop_append (space : ∀ c ∈ gap, isSpace c = true)
    (stop : startsWith continuesNumber r = false) : startsWith continuesNumber (gap ++ r) = false := by
  cases gap with
  | nil => exact stop
  | cons c s => exact not_continuesNumber_of_isSpace (space c (.head _))

/-- White space, and nothing else, sets the parts of a value apart. -/
structure Style.Spaced (style : Style) : Prop where
  newline : ∀ level, ∀ c ∈ style.newline level, isSpace c = true
  colon : ∃ space, style.colon = ':' :: space ∧ ∀ c ∈ space, isSpace c = true

theorem Style.spaced_indented : Style.indented.Spaced := by
  refine ⟨fun level c member => ?_, [' '], rfl, by decide⟩
  rcases List.mem_cons.1 member with rfl | blank
  · decide
  · rw [List.eq_of_mem_replicate blank]
    decide

def opensScalar (c : Char) : Bool := c.isDigit || c.isAlpha || c == '-'

def opensValue (c : Char) : Bool := opensScalar c || c == '"' || c == '[' || c == '{'

theorem not_isSpace_of_opensValue (opens : opensValue c = true) : isSpace c = false := by
  rw [Bool.eq_false_iff]
  intro space
  simp only [isSpace, Bool.or_eq_true, beq_iff_eq] at space
  rcases space with ((rfl | rfl) | rfl) | rfl <;> exact absurd opens (by decide)

theorem startsWith_opensScalar {negative : Bool} (digit : startsWith Char.isDigit t = true) :
    startsWith opensScalar (Double.signText negative ++ t) = true := by
  cases negative with
  | true => rfl
  | false =>
    cases t with
    | nil => contradiction
    | cons c s =>
      have digit : c.isDigit = true := digit
      show opensScalar c = true
      rw [opensScalar, digit]
      rfl

theorem startsWith_toString (n : Int) : startsWith opensScalar (toString n).toList = true := by
  rw [toList_toString]
  exact startsWith_opensScalar (startsWith_row
    (fun c member => Nat.isDigit_of_mem_toDigits (by decide) (by decide) member) Nat.toDigits_ne_nil)

theorem startsWith_writtenNumber (x : Float) : startsWith opensScalar (writtenNumber x) = true := by
  unfold writtenNumber
  split_ifs with nan infinite
  · rfl
  · cases Double.isNegative x <;> rfl
  · have finite : x.isFinite = true := by
      rw [Double.isInf_iff] at infinite
      rw [Double.isNaN_iff] at nan
      rw [Double.isFinite_iff]
      omega
    obtain ⟨t, d, shape, digit, _⟩ := exists_shown finite
    rw [shape]
    exact startsWith_opensScalar digit

/-- A value fails at once or begins as values do. -/
theorem write_begins (style : Style) (level : Nat) (json : Json) :
    (∃ m, write style level [] json = .fail m) ∨
      startsWith opensValue (layout style level json) = true := by
  have scalar {t : Text} (opens : startsWith opensScalar t = true) :
      startsWith opensValue t = true := by
    cases t with
    | nil => contradiction
    | cons c s =>
      have opens : opensScalar c = true := opens
      show opensValue c = true
      rw [opensValue, opens]
      rfl
  cases json with
  | null => exact .inr (scalar rfl)
  | truth b => cases b <;> exact .inr (scalar rfl)
  | number x => exact .inr (scalar (startsWith_writtenNumber x))
  | integer n =>
    unfold layout write Output.whole
    split
    · exact .inl ⟨_, rfl⟩
    · exact .inr (scalar (startsWith_toString n))
  | text t =>
    by_cases whole : t.IsText
    · obtain ⟨u, rfl⟩ := whole.exists_coe
      rw [layout_text]
      exact .inr rfl
    · exact .inl (Output.exists_ofPoints (not_isText_writtenText whole []))
  | array items =>
    cases items with
    | nil => exact .inr rfl
    | cons item items =>
      unfold layout write
      rcases write_lead style (level + 1) ('[' :: style.newline (level + 1)) item with
        behind | ⟨m, _, failed, _⟩
      · rw [behind, Output.nil_append, Output.append_assoc, Output.append_assoc]
        exact .inr rfl
      · rw [failed]
        exact .inl ⟨m, rfl⟩
  | object members =>
    cases members with
    | nil => exact .inr rfl
    | cons member members =>
      unfold layout write
      simp only [Output.append_assoc]
      exact .inr rfl

theorem Writable.startsWith_layout (writable : json.Writable) (style : Style) (level : Nat) :
    startsWith opensValue (layout style level json) = true := by
  refine (write_begins style level json).resolve_left ?_
  rintro ⟨m, failed⟩
  have none := writable.mishap_write style level []
  rw [failed] at none
  contradiction

theorem exists_cons_of_opensValue (opens : startsWith opensValue t = true) :
    ∃ c s, t = c :: s ∧ isSpace c = false ∧ c ≠ ']' := by
  cases t with
  | nil => contradiction
  | cons c s =>
    refine ⟨c, s, rfl, not_isSpace_of_opensValue opens, ?_⟩
    rintro rfl
    exact absurd opens Bool.noConfusion

theorem Writable.skipSpace_layout (writable : json.Writable) (style : Style) (level : Nat) (r : Text) :
    skipSpace (layout style level json ++ r) = layout style level json ++ r := by
  obtain ⟨c, s, shape, other, _⟩ :=
    exists_cons_of_opensValue (writable.startsWith_layout style level)
  rw [shape]
  exact skipSpace_of_stop other

/-- The value is read back at every level, with enough fuel and whatever follows that a number cannot go
on with. -/
def ReadsBack (style : Style) (json : Json) : Prop :=
  ∀ level fuel r, 2 * (layout style level json).length ≤ fuel →
    startsWith continuesNumber r = false →
      readValue fuel (layout style level json ++ r) = .ok (json, r)

theorem readValue_scalar (opens : startsWith opensScalar t = true) :
    readValue (fuel + 1) t = readScalar t := by
  cases t with
  | nil => contradiction
  | cons c s =>
    have other {d : Char} (closed : opensScalar d = false) : c ≠ d := by
      rintro rfl
      have opens : opensScalar c = true := opens
      rw [closed] at opens
      contradiction
    unfold readValue
    split
    next shape => exact absurd (List.cons.inj shape).1 (other rfl)
    next shape => exact absurd (List.cons.inj shape).1 (other rfl)
    next shape => exact absurd (List.cons.inj shape).1 (other rfl)
    next => rfl

theorem readsBack_scalar (opens : startsWith opensScalar t = true)
    (same : ∀ level, layout style level json = t)
    (read : ∀ r, startsWith continuesNumber r = false → readScalar (t ++ r) = .ok (json, r)) :
    ReadsBack style json := by
  intro level fuel r enough stop
  rw [same] at enough ⊢
  obtain ⟨fuel, rfl⟩ : ∃ n, fuel = n + 1 := by
    refine Nat.exists_eq_succ_of_ne_zero fun none => ?_
    rw [List.length_eq_zero_iff.1 (by omega : t.length = 0)] at opens
    contradiction
  rw [readValue_scalar (startsWith_append opens)]
  exact read r stop

theorem length_le_flatMap (t : Text) : t.length ≤ (t.flatMap writtenChar).length := by
  induction t with
  | nil => exact Nat.le_refl _
  | cons c s ih =>
    have one : 0 < (writtenChar c).length := by
      unfold writtenChar
      split_ifs <;> simp
    rw [List.flatMap_cons, List.length_append, List.length_cons]
    omega

/-- The fuel with which a text is read is enough for it. -/
theorem readText_of_quote (t r : Text) :
    readText ((t.flatMap writtenChar ++ '"' :: r).length + 1) (t.flatMap writtenChar ++ '"' :: r) =
      some (↑t, r) := by
  have long := length_le_flatMap t
  apply readText_writtenText
  rw [List.length_append]
  omega

theorem readsBack_text (u : Text) : ReadsBack style (text u) := by
  intro level fuel r enough stop
  rw [layout_text] at enough ⊢
  obtain ⟨fuel, rfl⟩ : ∃ n, fuel = n + 1 := by
    refine Nat.exists_eq_succ_of_ne_zero fun none => ?_
    simp [none, inQuotes] at enough
  simp only [inQuotes, List.cons_append, List.append_assoc, List.nil_append, readValue,
    readText_of_quote]
  rfl

/-- Behind an opening bracket and white space are items, if there is no closing one. -/
theorem readValue_items (space : ∀ c ∈ gap, isSpace c = true) (starts : skipSpace t = t)
    (other : ∀ r, t ≠ ']' :: r) (fuel : Nat) : readValue (fuel + 1) ('[' :: (gap ++ t)) =
      (readItems fuel t).map fun (items, r) => (array items, r) := by
  simp only [readValue, skipSpace_append space, starts]
  cases readItems fuel t <;> rfl

/-- Behind an opening brace and white space are members, if there is no closing one. -/
theorem readValue_members (space : ∀ c ∈ gap, isSpace c = true) (starts : skipSpace t = t)
    (other : ∀ r, t ≠ '}' :: r) (fuel : Nat) : readValue (fuel + 1) ('{' :: (gap ++ t)) =
      (readMembers fuel [] t).map fun (members, r) => (object members, r) := by
  simp only [readValue, skipSpace_append space, starts]
  cases readMembers fuel [] t <;> rfl

theorem readItems_close (first : readValue fuel t = .ok (json, gap ++ ']' :: r))
    (space : ∀ c ∈ gap, isSpace c = true) : readItems (fuel + 1) t = .ok ([json], r) := by
  simp only [readItems, first, bind, Except.bind, skipSpace_append space,
    skipSpace_of_stop (r := ']' :: r) rfl]
  rfl

theorem readItems_comma (first : readValue fuel t = .ok (json, ',' :: (gap ++ r)))
    (space : ∀ c ∈ gap, isSpace c = true) (starts : skipSpace r = r) : readItems (fuel + 1) t =
      (readItems fuel r).map fun (items, rest) => (json :: items, rest) := by
  simp only [readItems, first, bind, Except.bind, skipSpace_of_stop (r := ',' :: _) rfl,
    skipSpace_append space, starts]
  cases readItems fuel r <;> rfl

/-- Behind a name and a colon is the value of a member. -/
theorem readMembers_name (spaced : style.Spaced) (starts : skipSpace t = t) (fuel : Nat)
    (before : Table CodePoints Json) (name : Text) :
    readMembers (fuel + 1) before (inQuotes name ++ (style.colon ++ t)) =
      (readValue fuel t).bind fun (value, r) => match skipSpace r with
        | '}' :: rest => .ok (before.put name value, rest)
        | ',' :: r => readMembers fuel (before.put name value) (skipSpace r)
        | _ => .error .malformed := by
  obtain ⟨blank, colon, blanks⟩ := spaced.colon
  simp only [inQuotes, colon, List.cons_append, List.append_assoc, List.nil_append, readMembers,
    readText_of_quote, orMalformed, bind, Except.bind, skipSpace_of_stop (r := ':' :: _) rfl,
    skipSpace_append blanks, starts]
  rfl

/-- The items are read back if each of them is, up to a closing bracket behind white space. -/
theorem readItems_layoutItems (spaced : style.Spaced) (space : ∀ c ∈ gap, isSpace c = true)
    (writable : ∀ item ∈ json :: items, item.Writable)
    (each : ∀ item ∈ json :: items, ReadsBack style item)
    (enough : 2 * (layout style level json ++ layoutItems style level items).length + 1 ≤ fuel) :
    readItems fuel (layout style level json ++ (layoutItems style level items ++ (gap ++ ']' :: r))) =
      .ok (json :: items, r) := by
  induction items generalizing json fuel with
  | nil =>
    obtain ⟨fuel, rfl⟩ : ∃ n, fuel = n + 1 := Nat.exists_eq_succ_of_ne_zero (by omega)
    have first := each json (.head _) level fuel (gap ++ ']' :: r) (by simp at enough; omega)
      (stop_append space rfl)
    rw [layoutItems_nil, List.nil_append]
    exact readItems_close first space
  | cons next items ih =>
    obtain ⟨fuel, rfl⟩ : ∃ n, fuel = n + 1 := Nat.exists_eq_succ_of_ne_zero (by omega)
    have later : ∀ item ∈ next :: items, item.Writable := fun item member =>
      writable item (.tail _ member)
    have shape := layoutItems_cons (later next (.head _)) style level items
    rw [shape, List.length_append, List.length_cons, List.length_append, List.length_append] at enough
    have first := each json (.head _) level fuel
      (layoutItems style level (next :: items) ++ (gap ++ ']' :: r)) (by omega)
      (by rw [shape]; rfl)
    have bound : 2 * (layout style level next ++ layoutItems style level items).length + 1 ≤ fuel := by
      rw [List.length_append]
      omega
    have rest := ih later (fun item member => each item (.tail _ member)) bound
    have starts := (later next (.head _)).skipSpace_layout style level
      (layoutItems style level items ++ (gap ++ ']' :: r))
    simp only [shape, List.cons_append, List.append_assoc] at first ⊢
    rw [readItems_comma first (spaced.newline level) starts, rest]
    rfl

/-- The members are read back if the value of each of them is, up to a closing brace behind white
space, and put over those that were read before. -/
theorem readMembers_layoutMembers (spaced : style.Spaced) (space : ∀ c ∈ gap, isSpace c = true)
    {name : Text} {members : Table CodePoints Json} (before : Table CodePoints Json)
    (names : ∀ member ∈ members, member.1.IsText)
    (writable : ∀ member ∈ (↑name, json) :: members, member.2.Writable)
    (each : ∀ member ∈ (↑name, json) :: members, ReadsBack style member.2)
    (enough : 2 * (layout style level json ++ layoutMembers style level members).length + 1 ≤ fuel) :
    readMembers fuel before (inQuotes name ++ (style.colon ++ (layout style level json ++
        (layoutMembers style level members ++ (gap ++ '}' :: r))))) =
      .ok (before.overlay ((↑name, json) :: members), r) := by
  induction members generalizing name json fuel before with
  | nil =>
    obtain ⟨fuel, rfl⟩ : ∃ n, fuel = n + 1 := Nat.exists_eq_succ_of_ne_zero (by omega)
    have value : ReadsBack style json := each (name, json) (.head _)
    have whole : json.Writable := writable (name, json) (.head _)
    have first := value level fuel (gap ++ '}' :: r) (by simp at enough; omega) (stop_append space rfl)
    rw [layoutMembers_nil, List.nil_append, readMembers_name spaced (whole.skipSpace_layout style level _),
      first]
    simp only [Except.bind, skipSpace_append space, skipSpace_of_stop (r := '}' :: r) rfl]
    rfl
  | cons next members ih =>
    obtain ⟨other, value⟩ := next
    obtain ⟨named, others⟩ := List.forall_mem_cons.1 names
    obtain ⟨other, rfl⟩ := CodePoints.IsText.exists_coe named
    obtain ⟨fuel, rfl⟩ : ∃ n, fuel = n + 1 := Nat.exists_eq_succ_of_ne_zero (by omega)
    have later : ∀ member ∈ ((other : CodePoints), value) :: members, member.2.Writable :=
      fun member inside => writable member (.tail _ inside)
    have kept : ∀ member ∈ ((other : CodePoints), value) :: members, ReadsBack style member.2 :=
      fun member inside => each member (.tail _ inside)
    have next : value.Writable := later (other, value) (.head _)
    have shape := layoutMembers_cons (u := other) next style level members
    rw [shape, List.length_append, List.length_cons] at enough
    simp only [List.length_append] at enough
    have read : ReadsBack style json := each (name, json) (.head _)
    have whole : json.Writable := writable (name, json) (.head _)
    have first := read level fuel
      (layoutMembers style level ((↑other, value) :: members) ++ (gap ++ '}' :: r)) (by omega)
      (by rw [shape]; rfl)
    have bound : 2 * (layout style level value ++ layoutMembers style level members).length + 1 ≤
        fuel := by
      rw [List.length_append]
      omega
    have rest := ih (before.put name json) others later kept bound
    rw [readMembers_name spaced (whole.skipSpace_layout style level _), first, shape]
    simp only [inQuotes, List.cons_append, List.append_assoc, List.nil_append] at rest ⊢
    simp only [Except.bind, skipSpace_of_stop (r := ',' :: _) rfl,
      skipSpace_append (spaced.newline level), skipSpace_of_stop (r := '"' :: _) rfl, rest]
    rfl

theorem readsBack_array (spaced : style.Spaced) (writable : ∀ item ∈ items, item.Writable)
    (each : ∀ item ∈ items, ReadsBack style item) : ReadsBack style (array items) := by
  intro level fuel r enough stop
  cases items with
  | nil =>
    obtain ⟨fuel, rfl⟩ : ∃ n, fuel = n + 1 :=
      Nat.exists_eq_succ_of_ne_zero fun none => Nat.not_succ_le_zero _ (none ▸ enough)
    rfl
  | cons item items =>
    have first := writable item (.head _)
    have shape := layout_array writable style level
    rw [shape, List.length_cons] at enough
    simp only [List.length_append] at enough
    obtain ⟨fuel, rfl⟩ : ∃ n, fuel = n + 1 := Nat.exists_eq_succ_of_ne_zero (by omega)
    obtain ⟨c, s, start, _, shut⟩ :=
      exists_cons_of_opensValue (first.startsWith_layout style (level + 1))
    have bound : 2 * (layout style (level + 1) item ++
        layoutItems style (level + 1) items).length + 1 ≤ fuel := by
      rw [List.length_append]
      omega
    have other : ∀ t r, layout style (level + 1) item ++ t ≠ ']' :: r := by
      rw [start]
      exact fun t r same => shut (List.cons.inj same).1
    have read := readItems_layoutItems (r := r) spaced (spaced.newline level) writable each bound
    simp only [shape, List.cons_append, List.append_assoc, List.nil_append]
    rw [readValue_items (spaced.newline (level + 1)) (first.skipSpace_layout style (level + 1) _)
      (other _), read]
    rfl

theorem readsBack_object (spaced : style.Spaced) {members : Table CodePoints Json}
    (distinct : members.Distinct) (names : ∀ member ∈ members, member.1.IsText)
    (writable : ∀ member ∈ members, member.2.Writable)
    (each : ∀ member ∈ members, ReadsBack style member.2) : ReadsBack style (object members) := by
  intro level fuel r enough stop
  cases members with
  | nil =>
    obtain ⟨fuel, rfl⟩ : ∃ n, fuel = n + 1 :=
      Nat.exists_eq_succ_of_ne_zero fun none => Nat.not_succ_le_zero _ (none ▸ enough)
    rfl
  | cons member members =>
    obtain ⟨name, value⟩ := member
    obtain ⟨named, others⟩ := List.forall_mem_cons.1 names
    obtain ⟨name, rfl⟩ := CodePoints.IsText.exists_coe named
    have shape := layout_object others writable style level
    rw [shape, List.length_cons] at enough
    simp only [List.length_append] at enough
    obtain ⟨fuel, rfl⟩ : ∃ n, fuel = n + 1 := Nat.exists_eq_succ_of_ne_zero (by omega)
    have bound : 2 * (layout style (level + 1) value ++
        layoutMembers style (level + 1) members).length + 1 ≤ fuel := by
      rw [List.length_append]
      omega
    have read := readMembers_layoutMembers (r := r) spaced (spaced.newline level) [] others writable
      each bound
    have whole : Table.overlay [] ((↑name, value) :: members) = (↑name, value) :: members :=
      Table.overlay_of_distinct distinct
    rw [whole] at read
    simp only [shape, List.cons_append, List.append_assoc, List.nil_append]
    rw [readValue_members (spaced.newline (level + 1)) (skipSpace_of_stop rfl) (by simp [inQuotes]), read]
    rfl

/-- What can be written is read back where it is written. -/
theorem Writable.readsBack (writable : json.Writable) (formed : json.Formed)
    (spaced : style.Spaced) : ReadsBack style json := by
  induction formed with
  | null => exact readsBack_scalar rfl (fun _ => rfl) fun _ _ => rfl
  | truth b => cases b <;> exact readsBack_scalar rfl (fun _ => rfl) fun _ _ => rfl
  | integer n =>
    cases writable with
    | integer _ short =>
      exact readsBack_scalar (startsWith_toString n) (fun _ => layout_integer short) fun _ =>
        readScalar_toString short
  | number x =>
    exact readsBack_scalar (startsWith_writtenNumber x) (fun _ => rfl) fun _ =>
      readScalar_writtenNumber x
  | text t =>
    cases writable with
    | text _ whole =>
      obtain ⟨u, rfl⟩ := whole.exists_coe
      exact readsBack_text u
  | array items _ each =>
    cases writable with
    | array _ all =>
      exact readsBack_array spaced all fun item member => each item member (all item member)
  | object members distinct _ each =>
    cases writable with
    | object _ names all =>
      exact readsBack_object spaced distinct names all fun member inside =>
        each member inside (all member inside)

theorem Writable.read_layout (writable : json.Writable) (formed : json.Formed)
    (spaced : style.Spaced) (level : Nat) : read (layout style level json) = .ok json := by
  have value := writable.readsBack formed spaced level (2 * (layout style level json).length + 1) []
    (by omega) rfl
  have start := writable.skipSpace_layout style level []
  rw [List.append_nil] at value start
  unfold read
  simp only [start, value, bind, Except.bind]
  rfl

theorem formed_of_readNumber (read : readNumber t = .ok (json, r)) : json.Formed := by
  unfold readNumber at read
  dsimp only at read
  obtain ⟨⟨digits, u⟩, _, rest⟩ := bind_eq_ok read
  dsimp only at rest
  split at rest
  next =>
    split at rest
    next => contradiction
    next =>
      cases rest
      exact .integer _
  next =>
    cases rest
    exact .number _

theorem formed_of_names : ∀ entry ∈ names, entry.2.Formed := by
  simp only [names, List.forall_mem_cons]
  exact ⟨.null, .truth true, .truth false, .number _, .number _, .number _, by simp⟩

theorem formed_of_readScalar (read : readScalar t = .ok (json, r)) : json.Formed := by
  unfold readScalar at read
  dsimp only at read
  split at read
  next found named =>
    cases read
    obtain ⟨entry, member, after⟩ := List.exists_of_findSome?_eq_some named
    obtain ⟨rest, _, same⟩ := Option.map_eq_some_iff.1 after
    cases same
    exact formed_of_names entry member
  next => exact formed_of_readNumber read

/-- What is read with this much fuel has distinct names. -/
structure ReadsFormed (fuel : Nat) : Prop where
  value : ∀ t json r, readValue fuel t = .ok (json, r) → json.Formed
  items : ∀ t items r, readItems fuel t = .ok (items, r) → ∀ item ∈ items, item.Formed
  members : ∀ before t members r, readMembers fuel before t = .ok (members, r) →
    before.Distinct → (∀ member ∈ before, member.2.Formed) →
      members.Distinct ∧ ∀ member ∈ members, member.2.Formed

theorem readsFormed_zero : ReadsFormed 0 := by
  constructor
  · intro t json r read
    contradiction
  · intro t items r read
    contradiction
  · intro before t members r read
    unfold readMembers at read
    contradiction

theorem formed_of_readValue_succ (less : ReadsFormed fuel)
    (read : readValue (fuel + 1) t = .ok (json, r)) : json.Formed := by
  unfold readValue at read
  split at read
  next =>
    obtain ⟨⟨t, s⟩, _, same⟩ := bind_eq_ok read
    cases same
    exact .text t
  next =>
    split at read
    next =>
      cases read
      exact .array [] (by simp)
    next =>
      obtain ⟨⟨items, s⟩, inside, same⟩ := bind_eq_ok read
      cases same
      exact .array items (less.items _ _ _ inside)
  next =>
    split at read
    next =>
      cases read
      exact .object [] Table.distinct_nil (by simp)
    next =>
      obtain ⟨⟨members, s⟩, inside, same⟩ := bind_eq_ok read
      cases same
      obtain ⟨distinct, all⟩ := less.members _ _ _ _ inside Table.distinct_nil (by simp)
      exact .object members distinct all
  next => exact formed_of_readScalar read

theorem formed_of_readItems_succ (less : ReadsFormed fuel)
    (read : readItems (fuel + 1) t = .ok (items, r)) : ∀ item ∈ items, item.Formed := by
  unfold readItems at read
  obtain ⟨⟨item, s⟩, value, rest⟩ := bind_eq_ok read
  have first := less.value _ _ _ value
  dsimp only at rest
  split at rest
  next =>
    cases rest
    exact List.forall_mem_singleton.2 first
  next =>
    obtain ⟨⟨items, u⟩, later, same⟩ := bind_eq_ok rest
    cases same
    exact List.forall_mem_cons.2 ⟨first, less.items _ _ _ later⟩
  next => contradiction

theorem formed_of_readMembers_succ (less : ReadsFormed fuel) {before members : Table CodePoints Json}
    (read : readMembers (fuel + 1) before t = .ok (members, r)) (distinct : before.Distinct)
    (all : ∀ member ∈ before, member.2.Formed) :
    members.Distinct ∧ ∀ member ∈ members, member.2.Formed := by
  unfold readMembers at read
  split at read
  next same =>
    cases same
    obtain ⟨⟨name, s⟩, _, rest⟩ := bind_eq_ok read
    dsimp only at rest
    split at rest
    next =>
      obtain ⟨⟨value, u⟩, inside, rest⟩ := bind_eq_ok rest
      have put := distinct.put name value
      have kept := Table.forall_mem_put all name (less.value _ _ _ inside)
      dsimp only at rest
      split at rest
      next =>
        cases rest
        exact ⟨put, kept⟩
      next => exact less.members _ _ _ _ rest put kept
      next => contradiction
    next => contradiction
  next => contradiction

theorem readsFormed (fuel : Nat) : ReadsFormed fuel := by
  induction fuel with
  | zero => exact readsFormed_zero
  | succ fuel ih =>
    exact ⟨fun _ _ _ => formed_of_readValue_succ ih, fun _ _ _ => formed_of_readItems_succ ih,
      fun _ _ _ _ => formed_of_readMembers_succ ih⟩

/-- In a value that was read no two members of an object have one name. -/
theorem formed_of_read (found : read t = .ok json) : json.Formed := by
  obtain ⟨⟨value, r⟩, inside, rest⟩ := bind_eq_ok found
  dsimp only at rest
  split at rest
  next =>
    cases rest
    exact (readsFormed _).value _ _ _ inside
  next => contradiction

end Reckoner.Json
