import Reckoner.Traced

set_option autoImplicit false

namespace Reckoner.Traced

variable {ε ε' α β : Type}

@[simp] theorem outcome_pure (a : α) : (Pure.pure a : Traced ε α).outcome = .ok a := rfl

@[simp] theorem outcome_fail (e : ε) : (fail e : Traced ε α).outcome = .error e := rfl

@[simp] theorem outcome_emit (e : Event) : (emit e : Traced ε Unit).outcome = .ok () := rfl

@[simp] theorem outcome_ofExcept (r : Except ε α) : (ofExcept r).outcome = r := rfl

@[simp] theorem outcome_mapError (f : ε → ε') (x : Traced ε α) :
    (x.mapError f).outcome = x.outcome.mapError f := rfl

/-- The outcome of a sequence depends on the outcomes of its parts only. -/
@[simp] theorem outcome_bind (x : Traced ε α) (f : α → Traced ε β) :
    (x >>= f).outcome = x.outcome.bind fun a => (f a).outcome := by
  obtain ⟨events, outcome⟩ := x
  cases outcome <;> rfl

def filter (kind : Event → Bool) (x : Traced ε α) : Traced ε α :=
  ⟨x.events.filter kind, x.outcome⟩

@[simp] theorem filter_pure (kind : Event → Bool) (a : α) :
    (Pure.pure a : Traced ε α).filter kind = Pure.pure a := rfl

@[simp] theorem filter_ofExcept (kind : Event → Bool) (r : Except ε α) :
    (ofExcept r).filter kind = ofExcept r := rfl

@[simp] theorem filter_bind (kind : Event → Bool) (x : Traced ε α) (f : α → Traced ε β) :
    (x >>= f).filter kind = x.filter kind >>= fun a => (f a).filter kind := by
  obtain ⟨events, (e | a)⟩ := x
  · rfl
  · simp [filter, bind_ok]

theorem filter_emit_bind {kind : Event → Bool} {e : Event} (drops : kind e = false)
    (f : Unit → Traced ε β) : (emit e >>= f).filter kind = (f ()).filter kind := by
  simp [filter, emit, bind_ok, drops]

theorem filter_of_forall {kind : Event → Bool} {x : Traced ε α}
    (keeps : ∀ e ∈ x.events, kind e = true) : x.filter kind = x := by
  simp only [filter, List.filter_eq_self.2 keeps]

theorem mem_events_bind {x : Traced ε α} {f : α → Traced ε β} {e : Event}
    (h : e ∈ (x >>= f).events) : e ∈ x.events ∨ ∃ a, x.outcome = .ok a ∧ e ∈ (f a).events := by
  obtain ⟨events, (e' | a)⟩ := x
  · exact .inl h
  · rcases List.mem_append.1 h with h | h
    · exact .inl h
    · exact .inr ⟨a, rfl, h⟩

@[simp] theorem events_pure (a : α) : (Pure.pure a : Traced ε α).events = [] := rfl

/-- The events of a sequence whose first part has a value. -/
theorem events_bind {x : Traced ε α} {a : α} (value : x.outcome = .ok a) (f : α → Traced ε β) :
    (x >>= f).events = x.events ++ (f a).events := by
  obtain ⟨events, outcome⟩ := x
  cases value
  rfl

/-- The events of a sequence whose first part fails. -/
theorem events_bind_error {x : Traced ε α} {e : ε} (failed : x.outcome = .error e)
    (f : α → Traced ε β) : (x >>= f).events = x.events := by
  obtain ⟨events, outcome⟩ := x
  cases failed
  rfl

/-- Every event on the way shows the first property, and the value has the second one, if there is a
value. -/
def Keeps (shows : Event → Prop) (value : α → Prop) (x : Traced ε α) : Prop :=
  (∀ e ∈ x.events, shows e) ∧ ∀ a, x.outcome = .ok a → value a

variable {shows : Event → Prop} {value : α → Prop} {value' : β → Prop} {x : Traced ε α}

theorem keeps_pure {a : α} (h : value a) : (Pure.pure a : Traced ε α).Keeps shows value := by
  refine ⟨List.forall_mem_nil _, ?_⟩
  rintro _ ⟨⟩
  exact h

theorem keeps_fail (e : ε) : (fail e : Traced ε α).Keeps shows value := by
  refine ⟨List.forall_mem_nil _, ?_⟩
  rintro _ ⟨⟩

theorem keeps_emit {e : Event} (h : shows e) : (emit e : Traced ε Unit).Keeps shows fun _ => True :=
  ⟨List.forall_mem_singleton.2 h, fun _ _ => trivial⟩

theorem keeps_ofExcept (r : Except ε α) : (ofExcept r).Keeps shows fun a => r = .ok a :=
  ⟨List.forall_mem_nil _, fun _ same => same⟩

theorem Keeps.bind {f : α → Traced ε β} (h : x.Keeps shows value)
    (rest : ∀ a, value a → (f a).Keeps shows value') : (x >>= f).Keeps shows value' := by
  obtain ⟨shown, valued⟩ := h
  obtain ⟨events, outcome⟩ := x
  cases outcome with
  | error e =>
    refine ⟨shown, ?_⟩
    rintro _ ⟨⟩
  | ok a =>
    obtain ⟨shown', valued'⟩ := rest a (valued a rfl)
    exact ⟨List.forall_mem_append.2 ⟨shown, shown'⟩, valued'⟩

theorem Keeps.mapError (h : x.Keeps shows value) (f : ε → ε') :
    (x.mapError f).Keeps shows value := by
  obtain ⟨events, outcome⟩ := x
  cases outcome with
  | error e =>
    refine ⟨h.1, ?_⟩
    rintro _ ⟨⟩
  | ok a =>
    refine ⟨h.1, ?_⟩
    rintro _ ⟨⟩
    exact h.2 a rfl

theorem Keeps.with_outcome (h : x.Keeps shows value) :
    x.Keeps shows fun a => value a ∧ x.outcome = .ok a :=
  ⟨h.1, fun a same => ⟨h.2 a same, same⟩⟩

end Reckoner.Traced
