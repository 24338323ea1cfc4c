import TreeSpec.Failure

/-!
# Effects

A computation that may fail and that leaves a trace of events. The trace up to a failure is kept, so
what was asked of the outside world can be read off whatever the result is.
-/

namespace TreeSpec

set_option autoImplicit false

/-- A result together with the events on the way to it. -/
structure Effect (ε α : Type) where
  result : Except Failure α
  trace : List ε

namespace Effect

variable {ε δ α β : Type}

protected def pure (a : α) : Effect ε α := ⟨.ok a, []⟩

/-- The second computation runs only if the first one succeeds. -/
protected def bind (x : Effect ε α) (f : α → Effect ε β) : Effect ε β :=
  match x.result with
  | .error e => ⟨.error e, x.trace⟩
  | .ok a => ⟨(f a).result, x.trace ++ (f a).trace⟩

instance : Monad (Effect ε) where
  pure := Effect.pure
  bind := Effect.bind

def emit (events : List ε) : Effect ε Unit := ⟨.ok (), events⟩

def ofExcept (x : Except Failure α) : Effect ε α := ⟨x, []⟩

def fail (e : Failure) : Effect ε α := ⟨.error e, []⟩

/-- Replaces each event by other events. -/
def retrace (f : ε → List δ) (x : Effect ε α) : Effect δ α :=
  ⟨x.result, x.trace.flatMap f⟩

@[simp] theorem pure_result (a : α) : (pure a : Effect ε α).result = .ok a := rfl

@[simp] theorem pure_trace (a : α) : (pure a : Effect ε α).trace = [] := rfl

@[simp] theorem emit_nil : (emit [] : Effect ε Unit) = pure () := rfl

theorem bind_of_ok {x : Effect ε α} {a : α} (h : x.result = .ok a) (f : α → Effect ε β) :
    x >>= f = ⟨(f a).result, x.trace ++ (f a).trace⟩ := by
  simp [bind, Effect.bind, h]

theorem bind_of_error {x : Effect ε α} {e : Failure} (h : x.result = .error e)
    (f : α → Effect ε β) : x >>= f = ⟨.error e, x.trace⟩ := by
  simp [bind, Effect.bind, h]

theorem emit_bind (events : List ε) (f : Unit → Effect ε β) :
    emit events >>= f = ⟨(f ()).result, events ++ (f ()).trace⟩ := bind_of_ok rfl f

/-- Both parts of a sequence that succeeds do so, and their events follow each other. -/
theorem of_bind_ok {x : Effect ε α} {f : α → Effect ε β} {b : β}
    (h : (x >>= f).result = .ok b) : ∃ a, x.result = .ok a ∧ (f a).result = .ok b ∧
      (x >>= f).trace = x.trace ++ (f a).trace := by
  cases hx : x.result with
  | error e =>
    rw [bind_of_error hx] at h
    cases h
  | ok a =>
    rw [bind_of_ok hx] at h ⊢
    exact ⟨a, rfl, h, rfl⟩

/-- What holds of the events of both parts of a sequence holds of all its events. -/
theorem forall_mem_trace_bind {P : ε → Prop} {x : Effect ε α} {f : α → Effect ε β}
    (hx : ∀ e ∈ x.trace, P e) (hf : ∀ a, ∀ e ∈ (f a).trace, P e) :
    ∀ e ∈ (x >>= f).trace, P e := by
  cases hr : x.result with
  | error e =>
    rw [bind_of_error hr]
    exact hx
  | ok a =>
    rw [bind_of_ok hr]
    intro e he
    rcases List.mem_append.mp he with he | he
    · exact hx e he
    · exact hf a e he

/-- The events of a sequence are replaced part by part. -/
theorem retrace_bind (g : ε → List δ) (x : Effect ε α) (f : α → Effect ε β) :
    (x >>= f).retrace g = x.retrace g >>= fun a => (f a).retrace g := by
  cases h : x.result with
  | error e =>
    have hg : (x.retrace g).result = .error e := h
    rw [bind_of_error h, bind_of_error hg]
    rfl
  | ok a =>
    have hg : (x.retrace g).result = .ok a := h
    rw [bind_of_ok h, bind_of_ok hg]
    simp [retrace]

@[simp] theorem retrace_pure (g : ε → List δ) (a : α) :
    (pure a : Effect ε α).retrace g = pure a := rfl

instance : LawfulMonad (Effect ε) := by
  refine LawfulMonad.mk' _ ?_ ?_ ?_
  · intro α x
    obtain ⟨r, t⟩ := x
    cases r <;> simp [Functor.map, Effect.bind, Effect.pure]
  · intro α β a f
    simp [bind, Effect.bind, pure, Effect.pure]
  · intro α β γ x f g
    obtain ⟨r, t⟩ := x
    cases r with
    | error e => simp [bind, Effect.bind]
    | ok a => cases h : (f a).result <;> simp [bind, Effect.bind, h]

@[simp] theorem map_trace (f : α → β) (x : Effect ε α) : (f <$> x).trace = x.trace := by
  obtain ⟨r, t⟩ := x
  cases r <;> simp [Functor.map, Effect.bind, Effect.pure]

@[simp] theorem map_result (f : α → β) (x : Effect ε α) : (f <$> x).result = x.result.map f := by
  obtain ⟨r, t⟩ := x
  cases r <;> simp [Functor.map, Effect.bind, Effect.pure, Except.map]

end Effect

/-- A change of a state. What was changed before a failure stays changed. -/
abbrev Change (σ α : Type) := ExceptT Failure (StateM σ) α

namespace Change

variable {σ τ α β ε : Type}

/-- The change of a part of a state. -/
def within (part : τ → σ) (put : σ → τ → τ) (x : Change σ α) : Change τ α :=
  ExceptT.mk do
    let t ← get
    let (result, s) := x.run.run (part t)
    set (put s t)
    return result

/-- The state after a change, with what came of it. -/
def outcome (x : Change σ α) (s : σ) : σ × Effect ε α :=
  let (result, s) := x.run.run s
  (s, Effect.ofExcept result)

theorem outcome_within (part : τ → σ) (put : σ → τ → τ) (x : Change σ α) (t : τ) :
    ((x.within part put).outcome t : τ × Effect ε α) =
      (put (x.outcome (part t) : σ × Effect ε α).1 t, (x.outcome (part t)).2) := rfl

/-- What fails before the first change leaves the state as it was. -/
theorem outcome_ofExcept_bind (x : Except Failure α) (f : α → Change σ β) (s : σ) :
    ((MonadExcept.ofExcept x >>= f : Change σ β).outcome s : σ × Effect ε β) =
      match x with
      | .ok a => (f a).outcome s
      | .error e => (s, .fail e) := by
  cases x <;> rfl

end Change

end TreeSpec
