import Mathlib.Tactic.Common

set_option autoImplicit false

namespace Reckoner

variable {ε ε' ε'' α β γ δ : Type}

theorem bind_eq_ok {r : Except ε α} {f : α → Except ε β} {b : β} (h : r.bind f = .ok b) :
    ∃ a, r = .ok a ∧ f a = .ok b := by
  cases r with
  | error e => contradiction
  | ok a => exact ⟨a, rfl, h⟩

theorem bind_eq_error {r : Except ε α} {f : α → Except ε β} {e : ε} (h : r.bind f = .error e) :
    r = .error e ∨ ∃ a, r = .ok a ∧ f a = .error e := by
  cases r with
  | error e' =>
    cases h
    exact .inl rfl
  | ok a => exact .inr ⟨a, rfl, h⟩

theorem map_eq_ok {r : Except ε α} {f : α → β} {b : β} (h : r.map f = .ok b) :
    ∃ a, r = .ok a ∧ f a = b := by
  cases r with
  | error e => contradiction
  | ok a =>
    cases h
    exact ⟨a, rfl, rfl⟩

theorem map_eq_error {r : Except ε α} {f : α → β} {e : ε} :
    r.map f = .error e ↔ r = .error e := by
  cases r with
  | error e' => simp [Except.map]
  | ok a => exact iff_of_false nofun nofun

theorem mapError_eq_ok {r : Except ε α} {f : ε → ε'} {a : α} :
    r.mapError f = .ok a ↔ r = .ok a := by
  cases r with
  | error e => exact iff_of_false nofun nofun
  | ok b => simp [Except.mapError]

theorem mapError_eq_error {r : Except ε α} {f : ε → ε'} {e : ε'} (h : r.mapError f = .error e) :
    ∃ e', r = .error e' ∧ f e' = e := by
  cases r with
  | error e' =>
    cases h
    exact ⟨e', rfl, rfl⟩
  | ok a => contradiction

/-- Both fail, or both have values and the relation holds of these. -/
def Matches (related : α → β → Prop) : Except ε α → Except ε' β → Prop
  | .ok a, .ok b => related a b
  | .error _, .error _ => True
  | _, _ => False

variable {related : α → β → Prop} {r : Except ε α} {s : Except ε' β}

theorem Matches.error (e : ε) (e' : ε') :
    Matches related (.error e : Except ε α) (.error e' : Except ε' β) := trivial

theorem matches_refl (r : Except ε α) : Matches (fun a b => a = b) r r := by
  cases r with
  | error e => trivial
  | ok a => rfl

theorem Matches.cases (h : Matches related r s) :
    (∃ a b, r = .ok a ∧ s = .ok b ∧ related a b) ∨ ∃ e e', r = .error e ∧ s = .error e' := by
  cases r with
  | error e =>
    cases s with
    | error e' => exact .inr ⟨e, e', rfl, rfl⟩
    | ok b => exact absurd h id
  | ok a =>
    cases s with
    | error e' => exact absurd h id
    | ok b => exact .inl ⟨a, b, rfl, rfl, h⟩

theorem Matches.symm (h : Matches related r s) : Matches (fun b a => related a b) s r := by
  rcases h.cases with ⟨a, b, rfl, rfl, both⟩ | ⟨e, e', rfl, rfl⟩
  · exact both
  · trivial

theorem Matches.with_left (h : Matches related r s) :
    Matches (fun a b => r = .ok a ∧ related a b) r s := by
  rcases h.cases with ⟨a, b, rfl, rfl, both⟩ | ⟨e, e', rfl, rfl⟩
  · exact ⟨rfl, both⟩
  · trivial

theorem Matches.bind {f : α → Except ε γ} {g : β → Except ε' δ} {then' : γ → δ → Prop}
    (h : Matches related r s) (next : ∀ a b, related a b → Matches then' (f a) (g b)) :
    Matches then' (r.bind f) (s.bind g) := by
  rcases h.cases with ⟨a, b, rfl, rfl, both⟩ | ⟨e, e', rfl, rfl⟩
  · exact next a b both
  · trivial

theorem Matches.map {f : α → γ} {g : β → δ} {then' : γ → δ → Prop}
    (h : Matches related r s) (next : ∀ a b, related a b → then' (f a) (g b)) :
    Matches then' (r.map f) (s.map g) := by
  rcases h.cases with ⟨a, b, rfl, rfl, both⟩ | ⟨e, e', rfl, rfl⟩
  · exact next a b both
  · trivial

theorem Matches.bind_left {f : α → Except ε γ} {then' : γ → β → Prop} (h : Matches related r s)
    (next : ∀ a b, related a b → ∃ c, f a = .ok c ∧ then' c b) : Matches then' (r.bind f) s := by
  rcases h.cases with ⟨a, b, rfl, rfl, both⟩ | ⟨e, e', rfl, rfl⟩
  · obtain ⟨c, value, after⟩ := next a b both
    change Matches then' (f a) (.ok b)
    rw [value]
    exact after
  · trivial

theorem Matches.map_left {f : α → γ} {then' : γ → β → Prop} (h : Matches related r s)
    (next : ∀ a b, related a b → then' (f a) b) : Matches then' (r.map f) s := by
  rcases h.cases with ⟨a, b, rfl, rfl, both⟩ | ⟨e, e', rfl, rfl⟩
  · exact next a b both
  · trivial

theorem Matches.mono {weaker : α → β → Prop} (h : Matches related r s)
    (next : ∀ a b, related a b → weaker a b) : Matches weaker r s := by
  rcases h.cases with ⟨a, b, rfl, rfl, both⟩ | ⟨e, e', rfl, rfl⟩
  · exact next a b both
  · trivial

theorem Matches.trans {second : β → γ → Prop} {t : Except ε'' γ} (h : Matches related r s)
    (h' : Matches second s t) : Matches (fun a c => ∃ b, related a b ∧ second b c) r t := by
  rcases h.cases with ⟨a, b, rfl, rfl, both⟩ | ⟨e, e', rfl, rfl⟩
  · rcases h'.cases with ⟨_, c, same, rfl, both'⟩ | ⟨_, _, wrong, _⟩
    · cases same
      exact ⟨b, both, both'⟩
    · contradiction
  · rcases h'.cases with ⟨_, _, wrong, _⟩ | ⟨_, _, _, rfl, _⟩
    · contradiction
    · trivial

theorem Matches.mapError (h : Matches related r s) (f : ε → ε'') :
    Matches related (r.mapError f) s := by
  rcases h.cases with ⟨a, b, rfl, rfl, both⟩ | ⟨e, e', rfl, rfl⟩
  · exact both
  · trivial

theorem Matches.mapError_right (h : Matches related r s) (f : ε' → ε'') :
    Matches related r (s.mapError f) := by
  rcases h.cases with ⟨a, b, rfl, rfl, both⟩ | ⟨e, e', rfl, rfl⟩
  · exact both
  · trivial

end Reckoner
