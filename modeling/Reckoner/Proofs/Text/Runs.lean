import Reckoner.Text.Character
import Mathlib.Data.List.Basic

set_option autoImplicit false

namespace Reckoner

variable {p q : Char → Bool} {c : Char} {t r name : Text}

structure IsRun (p : Char → Bool) (t name : Text) : Prop where
  nonempty : name ≠ []
  row : ∀ c ∈ name, p c = true
  whole : ∃ u v, t = u ++ (name ++ v) ∧ (∀ c ∈ u.getLast?, p c = false) ∧ ∀ c ∈ v.head?, p c = false

theorem not_isRun_nil : ¬ IsRun p [] name := by
  rintro ⟨nonempty, _, u, v, shape, _⟩
  apply nonempty
  simp only [List.nil_eq, List.append_eq_nil_iff] at shape
  exact shape.2.1

/-- What a row of the class is followed by, if that is no character of the class. -/
theorem takeWhile_append_of_stop {v : Text} (row : ∀ c ∈ name, p c = true)
    (stop : ∀ c ∈ v.head?, p c = false) :
    (name ++ v).takeWhile p = name ∧ (name ++ v).dropWhile p = v := by
  have none : v.takeWhile p = [] ∧ v.dropWhile p = v := by
    cases v with
    | nil => exact ⟨rfl, rfl⟩
    | cons c v => simp [stop c rfl]
  rw [List.takeWhile_append_of_pos row, List.dropWhile_append_of_pos row, none.1, none.2]
  exact ⟨List.append_nil name, rfl⟩

/-- A text is cut at the first mark in it. -/
theorem cut_at {mark : Char} (absent : mark ∉ r) (t : Text) :
    (r ++ mark :: t).takeWhile (· != mark) = r ∧
      (r ++ mark :: t).dropWhile (· != mark) = mark :: t := by
  refine takeWhile_append_of_stop (fun c member => ?_) (fun c head => ?_)
  · rw [bne_iff_ne]
    exact fun same => absent (same ▸ member)
  · cases head
    exact bne_self_eq_false mark

theorem stop_dropWhile (t : Text) : ∀ c ∈ (t.dropWhile p).head?, p c = false := by
  intro c head
  have stop := List.head?_dropWhile_not p t
  rw [Option.mem_def.1 head] at stop
  simpa using stop

theorem isRun_cons_of_not (other : p c = false) : IsRun p (c :: t) name ↔ IsRun p t name := by
  constructor
  · rintro ⟨nonempty, row, u, v, shape, before, after⟩
    cases u with
    | nil =>
      obtain ⟨d, s, rfl⟩ := List.exists_cons_of_ne_nil nonempty
      have inside := row d (.head _)
      rw [← (List.cons.inj shape).1, other] at inside
      contradiction
    | cons d u =>
      refine ⟨nonempty, row, u, v, (List.cons.inj shape).2, fun e last => before e ?_, after⟩
      rw [← List.singleton_append, List.getLast?_append, Option.mem_def.1 last]
      rfl
  · rintro ⟨nonempty, row, u, v, rfl, before, after⟩
    refine ⟨nonempty, row, c :: u, v, rfl, fun e last => ?_, after⟩
    cases u with
    | nil =>
      cases last
      exact other
    | cons d u => exact before e last

/-- A row of the class at the start, which what follows it stops, is the first run. -/
theorem isRun_append {a s : Text} (nonempty : a ≠ []) (row : ∀ c ∈ a, p c = true)
    (stop : ∀ c ∈ s.head?, p c = false) : IsRun p (a ++ s) name ↔ name = a ∨ IsRun p s name := by
  constructor
  · rintro ⟨full, names, u, v, shape, before, after⟩
    rcases List.eq_nil_or_concat u with rfl | ⟨u, d, rfl⟩
    · left
      have first := (takeWhile_append_of_stop row stop).1
      rw [shape] at first
      exact (takeWhile_append_of_stop names after).1.symm.trans first
    · rw [List.concat_eq_append] at shape before
      have last : p d = false := before d (by simp)
      have outside : d ∉ a := fun member => by
        rw [row d member] at last
        contradiction
      rcases List.append_eq_append_iff.1 shape with ⟨w, beginning, rest⟩ | ⟨w, beginning, _⟩
      · refine .inr ⟨full, names, w, v, rest, fun e final => before e ?_, after⟩
        rw [beginning, List.getLast?_append, Option.mem_def.1 final]
        rfl
      · exact absurd (beginning ▸ by simp) outside
  · rintro (rfl | ⟨full, names, u, v, rfl, before, after⟩)
    · exact ⟨nonempty, row, [], s, rfl, nofun, stop⟩
    · refine ⟨full, names, a ++ u, v, by simp, fun e last => ?_, after⟩
      cases u with
      | nil =>
        obtain ⟨d, r, rfl⟩ := List.exists_cons_of_ne_nil full
        have outside := stop d rfl
        rw [names d (.head _)] at outside
        contradiction
      | cons d u =>
        apply before e
        rwa [List.getLast?_append_of_ne_nil _ (List.cons_ne_nil d u)] at last

/-- A character of the class begins a run, and the other runs are behind that one. -/
theorem isRun_cons (inside : p c = true) : IsRun p (c :: t) name ↔
    name = c :: t.takeWhile p ∨ IsRun p (t.dropWhile p) name := by
  have row : ∀ d ∈ c :: t.takeWhile p, p d = true :=
    List.forall_mem_cons.2 ⟨inside, List.all_eq_true.1 List.all_takeWhile⟩
  have whole : c :: t = (c :: t.takeWhile p) ++ t.dropWhile p := by
    rw [List.cons_append, List.takeWhile_append_dropWhile]
  rw [whole]
  exact isRun_append (List.cons_ne_nil c _) row (stop_dropWhile t)

/-- Classes that agree on a text have the same runs in it. -/
theorem isRun_congr (same : ∀ c ∈ t, p c = q c) : IsRun p t name ↔ IsRun q t name := by
  have transfer {p q : Char → Bool} (same : ∀ c ∈ t, p c = q c) (h : IsRun p t name) :
      IsRun q t name := by
    obtain ⟨nonempty, row, u, v, rfl, before, after⟩ := h
    refine ⟨nonempty, fun c member => ?_, u, v, rfl, fun c last => ?_, fun c head => ?_⟩
    · rw [← same c (by simp [member])]
      exact row c member
    · rw [← same c (by simp [List.mem_of_getLast? last])]
      exact before c last
    · rw [← same c (by simp [List.mem_of_head? head])]
      exact after c head
  exact ⟨transfer same, transfer fun c member => (same c member).symm⟩

end Reckoner
