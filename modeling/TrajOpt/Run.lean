/-!
# Runs that report events

A run produces a list of events and ends with a result or with an error. The events come first: a
run that fails still reports everything that happened before. Events are values, so what is reported
never takes part in what is computed.
-/

namespace TrajOpt

/-- The events of a computation, in order, and its outcome. -/
structure Run (ε η β : Type) where
  events : List ε
  outcome : Except η β

namespace Run

variable {ε η θ β γ : Type}

/-- A result without any event. -/
def pure (b : β) : Run ε η β := ⟨[], .ok b⟩

/-- An error without any event. -/
def fail (e : η) : Run ε η β := ⟨[], .error e⟩

/-- A single event. -/
def report (e : ε) : Run ε η Unit := ⟨[e], .ok ()⟩

/-- The event, if the condition holds. -/
def reportIf (condition : Bool) (e : ε) : Run ε η Unit := if condition then report e else pure ()

/-- One run after the other; an error ends the whole. -/
def bind (x : Run ε η β) (f : β → Run ε η γ) : Run ε η γ :=
  match x.outcome with
  | .ok b =>
    let y := f b
    ⟨x.events ++ y.events, y.outcome⟩
  | .error e => ⟨x.events, .error e⟩

instance : Monad (Run ε η) where
  pure := pure
  bind := bind

/-- A result or an error as a run without events. -/
def ofExcept (x : Except η β) : Run ε η β := ⟨[], x⟩

/-- The same run with another type of errors. -/
def mapError (f : η → θ) (x : Run ε η β) : Run ε θ β := ⟨x.events, x.outcome.mapError f⟩

@[simp] theorem outcome_pure (b : β) : (Pure.pure b : Run ε η β).outcome = .ok b := rfl

@[simp] theorem events_pure (b : β) : (Pure.pure b : Run ε η β).events = [] := rfl

theorem outcome_bind (x : Run ε η β) (f : β → Run ε η γ) :
    (x >>= f).outcome = x.outcome >>= fun b => (f b).outcome := by
  show (bind x f).outcome = _
  unfold bind
  cases h : x.outcome <;> rfl

end Run

end TrajOpt
