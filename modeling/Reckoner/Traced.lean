import Reckoner.Event

set_option autoImplicit false

namespace Reckoner

/-- An outcome and the events that led to it, in order. -/
structure Traced (ε α : Type) where
  events : List Event
  outcome : Except ε α

namespace Traced

variable {ε ε' α β : Type}

@[inline] def pure (a : α) : Traced ε α := ⟨[], .ok a⟩

@[inline] def fail (e : ε) : Traced ε α := ⟨[], .error e⟩

@[inline] def emit (e : Event) : Traced ε Unit := ⟨[e], .ok ()⟩

@[inline] def ofExcept (x : Except ε α) : Traced ε α := ⟨[], x⟩

/-- The first computation and, if that has a value, the second one with it. -/
@[inline] def bind (x : Traced ε α) (f : α → Traced ε β) : Traced ε β :=
  match x with
  | ⟨events, .ok a⟩ => let y := f a; ⟨events ++ y.events, y.outcome⟩
  | ⟨events, .error e⟩ => ⟨events, .error e⟩

@[inline] def mapError (f : ε → ε') (x : Traced ε α) : Traced ε' α :=
  ⟨x.events, x.outcome.mapError f⟩

/-- The same computation, going on in another way after a failure. -/
@[inline] def handle (x : Traced ε α) (f : ε → Traced ε' α) : Traced ε' α :=
  match x with
  | ⟨events, .ok a⟩ => ⟨events, .ok a⟩
  | ⟨events, .error e⟩ => let y := f e; ⟨events ++ y.events, y.outcome⟩

instance : Monad (Traced ε) where
  pure := pure
  bind := bind

theorem bind_ok (events : List Event) (a : α) (f : α → Traced ε β) :
    (⟨events, .ok a⟩ : Traced ε α) >>= f = ⟨events ++ (f a).events, (f a).outcome⟩ := rfl

instance : LawfulMonad (Traced ε) := LawfulMonad.mk'
  (Traced ε)
  (by rintro α ⟨events, (e | a)⟩ <;> simp [Functor.map, bind, pure])
  (by intro α β a f; simp [Bind.bind, Pure.pure, bind, pure])
  (by rintro α β γ ⟨events, (e | a)⟩ f g
      · rfl
      · simp only [Bind.bind, bind]
        rcases f a with ⟨_, (e | b)⟩ <;> simp)

end Traced

end Reckoner
