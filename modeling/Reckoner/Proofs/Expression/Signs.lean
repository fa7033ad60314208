import Reckoner.Evaluation.Operand
import Mathlib.Tactic.Common

set_option autoImplicit false

namespace Reckoner

variable {c d : Char} {t u : Text}

/-- At most one sign. -/
def IsLead (t : Text) : Prop := t = [] ∨ t = ['+'] ∨ t = ['-']

theorem isLead_nil : IsLead [] := .inl rfl

/-- No two signs in a row. -/
def Reduced (t : Text) : Prop := reduceSigns t = t

theorem isSign_iff : isSign c = true ↔ c = '+' ∨ c = '-' := by
  simp only [isSign, Bool.or_eq_true, beq_iff_eq]

theorem isLead_of_isSign (sign : isSign c = true) : IsLead [c] := by
  rcases isSign_iff.1 sign with rfl | rfl
  · exact .inr (.inl rfl)
  · exact .inr (.inr rfl)

theorem attachSign_of_unsigned (unsigned : startsWith isSign t = false) (c : Char) :
    attachSign c t = c :: t := by
  cases t with
  | nil => rfl
  | cons d r =>
    have head : isSign d = false := by simpa [startsWith] using unsigned
    simp only [attachSign, head, Bool.and_false, Bool.false_eq_true, if_false]

theorem attachSign_of_signs (hc : isSign c = true) (hd : isSign d = true) (t : Text) :
    attachSign c (d :: t) = combineSigns c d :: t := by
  simp only [attachSign, hc, hd, Bool.and_self, if_true]

theorem attachSign_of_apart (apart : ¬ (isSign c = true ∧ isSign d = true)) (t : Text) :
    attachSign c (d :: t) = c :: d :: t := by
  have none : (isSign c && isSign d) = false := by simpa using apart
  simp only [attachSign, none, Bool.false_eq_true, if_false]

theorem combineSigns_assoc {a b c : Char} (ha : isSign a = true) (hb : isSign b = true)
    (hc : isSign c = true) :
    combineSigns (combineSigns a b) c = combineSigns a (combineSigns b c) := by
  rw [isSign_iff] at ha hb hc
  rcases ha with rfl | rfl <;> rcases hb with rfl | rfl <;> rcases hc with rfl | rfl <;> decide

/-- Two characters are attached one after the other or, if they are signs, at once. -/
theorem attachSign_attachSign (hc : isSign c = true) (hd : isSign d = true) (t : Text) :
    attachSign c (attachSign d t) = attachSign (combineSigns c d) t := by
  have sign := isSign_combineSigns c d
  cases t with
  | nil => exact attachSign_of_signs hc hd []
  | cons e r =>
    by_cases he : isSign e = true
    · rw [attachSign_of_signs hd he, attachSign_of_signs hc (isSign_combineSigns d e),
        attachSign_of_signs sign he, combineSigns_assoc hc hd he]
    · have unsigned : startsWith isSign (e :: r) = false := by simpa [startsWith] using he
      rw [attachSign_of_unsigned unsigned, attachSign_of_unsigned unsigned,
        attachSign_of_signs hc hd]

theorem foldr_attachSign_attachSign (c : Char) (t u : Text) :
    (attachSign c t).foldr attachSign u = attachSign c (t.foldr attachSign u) := by
  cases t with
  | nil => rfl
  | cons d r =>
    by_cases hc : isSign c = true
    · by_cases hd : isSign d = true
      · rw [attachSign_of_signs hc hd, List.foldr_cons, List.foldr_cons,
          attachSign_attachSign hc hd]
      · have unsigned : startsWith isSign (d :: r) = false := by simpa [startsWith] using hd
        rw [attachSign_of_unsigned unsigned]
        rfl
    · rw [attachSign_of_not_isSign (by simpa using hc)]
      rfl

theorem reduceSigns_append (t u : Text) :
    reduceSigns (t ++ u) = t.foldr attachSign (reduceSigns u) :=
  List.foldr_append

/-- The beginning of a text can be reduced first. -/
theorem reduceSigns_reduceSigns_append (t u : Text) :
    reduceSigns (reduceSigns t ++ u) = reduceSigns (t ++ u) := by
  rw [reduceSigns_append, reduceSigns_append]
  induction t with
  | nil => rfl
  | cons c r ih => rw [reduceSigns_cons, foldr_attachSign_attachSign, ih, List.foldr_cons]

@[simp] theorem reduceSigns_reduceSigns (t : Text) :
    reduceSigns (reduceSigns t) = reduceSigns t := by
  have whole := reduceSigns_reduceSigns_append t []
  rwa [List.append_nil, List.append_nil] at whole

/-- The end of a text can be reduced first. -/
theorem reduceSigns_append_reduceSigns (t u : Text) :
    reduceSigns (t ++ reduceSigns u) = reduceSigns (t ++ u) := by
  rw [reduceSigns_append, reduceSigns_append, reduceSigns_reduceSigns]

theorem mem_reduceSigns (h : c ∈ reduceSigns t) : c ∈ t ∨ isSign c = true := by
  induction t with
  | nil => contradiction
  | cons d t ih =>
    rw [reduceSigns_cons] at h
    cases rest : reduceSigns t with
    | nil =>
      rw [rest] at h
      exact .inl (List.mem_singleton.1 h ▸ .head _)
    | cons e r =>
      rw [rest] at h ih
      simp only [attachSign] at h
      have tail (mem : c ∈ e :: r) : c ∈ d :: t ∨ isSign c = true :=
        (ih mem).imp_left (.tail _)
      split at h
      · rcases List.mem_cons.1 h with rfl | mem
        · exact .inr (isSign_combineSigns d e)
        · exact tail (.tail _ mem)
      · rcases List.mem_cons.1 h with rfl | mem
        · exact .inl (.head _)
        · exact tail mem

theorem startsWith_attachSign (c : Char) (t : Text) :
    startsWith isSign (attachSign c t) = isSign c := by
  cases t with
  | nil => rfl
  | cons d r =>
    by_cases both : (isSign c && isSign d) = true
    · simp only [attachSign, both, if_true]
      rw [Bool.and_eq_true] at both
      rw [both.1]
      exact isSign_combineSigns c d
    · simp only [attachSign, both]
      rfl

theorem startsWith_reduceSigns (t : Text) :
    startsWith isSign (reduceSigns t) = startsWith isSign t := by
  cases t with
  | nil => rfl
  | cons c r => exact startsWith_attachSign c _

/-- A text is cut where what follows does not begin with a sign. -/
theorem reduceSigns_append_of_unsigned (unsigned : startsWith isSign u = false) (t : Text) :
    reduceSigns (t ++ u) = reduceSigns t ++ reduceSigns u := by
  have head : startsWith isSign (reduceSigns u) = false := by rw [startsWith_reduceSigns, unsigned]
  induction t with
  | nil => rfl
  | cons c r ih =>
    rw [List.cons_append, reduceSigns_cons, reduceSigns_cons, ih]
    cases reduceSigns r with
    | nil => exact attachSign_of_unsigned head c
    | cons d s =>
      simp only [List.cons_append, attachSign]
      split <;> rfl

/-- A text is cut behind a character that is not a sign. -/
theorem reduceSigns_append_cons (notSign : isSign c = false) (t u : Text) :
    reduceSigns (t ++ c :: u) = reduceSigns t ++ c :: reduceSigns u := by
  have unsigned : startsWith isSign (c :: u) = false := by simpa [startsWith] using notSign
  rw [reduceSigns_append_of_unsigned unsigned, reduceSigns_cons,
    attachSign_of_not_isSign notSign]

/-- Signs at the start can be dropped first. -/
theorem dropWhile_reduceSigns (t : Text) :
    (reduceSigns t).dropWhile isSign = reduceSigns (t.dropWhile isSign) := by
  induction t with
  | nil => rfl
  | cons c t ih =>
    by_cases sign : isSign c = true
    · rw [List.dropWhile_cons_of_pos sign, ← ih, reduceSigns_cons]
      cases reduceSigns t with
      | nil => exact List.dropWhile_cons_of_pos sign
      | cons d r =>
        by_cases sign' : isSign d = true
        · rw [attachSign_of_signs sign sign', List.dropWhile_cons_of_pos sign',
            List.dropWhile_cons_of_pos (isSign_combineSigns c d)]
        · have unsigned : startsWith isSign (d :: r) = false := by simpa [startsWith] using sign'
          rw [attachSign_of_unsigned unsigned, List.dropWhile_cons_of_pos sign]
    · rw [List.dropWhile_cons_of_neg sign, reduceSigns_cons,
        attachSign_of_not_isSign (by simpa using sign), List.dropWhile_cons_of_neg sign]

theorem reduced_nil : Reduced [] := rfl

theorem Reduced.cons_unsigned (h : Reduced t) (unsigned : startsWith isSign t = false) (c : Char) :
    Reduced (c :: t) := by
  unfold Reduced at h ⊢
  rw [reduceSigns_cons, h, attachSign_of_unsigned unsigned]

theorem Reduced.cons_not_sign (h : Reduced t) (notSign : isSign c = false) : Reduced (c :: t) := by
  unfold Reduced at h ⊢
  rw [reduceSigns_cons, h, attachSign_of_not_isSign notSign]

theorem reduced_of_no_signs (none : ∀ c ∈ t, isSign c = false) : Reduced t := by
  induction t with
  | nil => exact reduced_nil
  | cons c r ih => exact (ih fun d hd => none d (.tail _ hd)).cons_not_sign (none c (.head _))

theorem IsLead.reduceSigns_append {lead lead' : Text} (h : IsLead lead) (h' : IsLead lead') :
    IsLead (reduceSigns (lead ++ lead')) := by
  rcases h with rfl | rfl | rfl <;> rcases h' with rfl | rfl | rfl <;>
    first
    | exact .inl (by decide)
    | exact .inr (.inl (by decide))
    | exact .inr (.inr (by decide))

theorem isLead_splitOne (t : Text) : IsLead (splitOne isSign t).1 := by
  cases t with
  | nil => exact .inl rfl
  | cons c r =>
    by_cases sign : isSign c = true
    · simp only [splitOne, sign, if_true]
      exact isLead_of_isSign sign
    · simp only [splitOne, sign]
      exact .inl rfl

end Reckoner
