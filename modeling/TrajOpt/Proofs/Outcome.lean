import TrajOpt.Run

/-!
# Outcomes of runs

A run that returns a result has returned one in each of its parts. The lemmas below take the outcome
of a run apart, so that no later proof looks into the monad of runs.
-/

namespace TrajOpt

section Except

variable {η β γ δ : Type}

/-- Two computations in a row return when both do. -/
theorem bind_eq_ok {x : Except η β} {f : β → Except η γ} {c : γ} :
    x >>= f = .ok c ↔ ∃ b, x = .ok b ∧ f b = .ok c := by
  cases x with
  | ok b => exact ⟨fun h => ⟨b, rfl, h⟩, fun ⟨_, hb, h⟩ => Except.ok.inj hb ▸ h⟩
  | error e => exact ⟨(nomatch ·), fun ⟨_, hb, _⟩ => nomatch hb⟩

/-- Two computations in a row fail when the first one does, or the second one after it. -/
theorem bind_eq_error {x : Except η β} {f : β → Except η γ} {e : η} :
    x >>= f = .error e ↔ x = .error e ∨ ∃ b, x = .ok b ∧ f b = .error e := by
  cases x with
  | ok b =>
    refine ⟨fun h => .inr ⟨b, rfl, h⟩, ?_⟩
    rintro (⟨⟨⟩⟩ | ⟨_, ⟨⟨⟩⟩, h⟩)
    exact h
  | error e' =>
    refine ⟨fun h => .inl (by cases h; rfl), ?_⟩
    rintro (⟨⟨⟩⟩ | ⟨_, ⟨⟨⟩⟩, -⟩)
    rfl

theorem map_eq_ok {x : Except η β} {f : β → γ} {c : γ} :
    x.map f = .ok c ↔ ∃ b, x = .ok b ∧ f b = c := by
  cases x <;> simp [Except.map]

theorem map_eq_error {x : Except η β} {f : β → γ} {e : η} :
    x.map f = .error e ↔ x = .error e := by
  cases x <;> simp [Except.map]

@[simp] theorem ok_bind (b : β) (f : β → Except η γ) : (Except.ok b >>= f) = f b := rfl

@[simp] theorem throw_bind (e : η) (f : β → Except η γ) : (throw e >>= f) = throw e := rfl

/-- A check that refuses a condition passes when the condition does not hold. -/
theorem refuse_eq_ok {p : Prop} [Decidable p] {e : η} {x : Except η β} {b : β} :
    (if p then throw e else x) = .ok b ↔ ¬ p ∧ x = .ok b := by
  by_cases hp : p <;> simp [hp, throw, throwThe, MonadExceptOf.throw]

/-- A check that requires a condition passes when the condition holds. -/
theorem require_eq_ok {p : Prop} [Decidable p] {e : η} {x : Except η β} {b : β} :
    (if p then x else throw e) = .ok b ↔ p ∧ x = .ok b := by
  by_cases hp : p <;> simp [hp, throw, throwThe, MonadExceptOf.throw]

/-- A check of all entries of a list passes when none of them is refused. -/
theorem forIn_refuse_eq_ok {p : β → Prop} [DecidablePred p] {e : β → η} {l : List β} :
    (forIn l PUnit.unit fun x _ => if p x then throw (e x) else pure (.yield PUnit.unit)) =
      (.ok () : Except η PUnit) ↔ ∀ x ∈ l, ¬ p x := by
  induction l with
  | nil => simp [pure, Except.pure]
  | cons x l ih =>
    rw [List.forall_mem_cons, ← ih, List.forIn_cons, bind_eq_ok]
    constructor
    · rintro ⟨b, hx, hl⟩
      obtain ⟨hp, hb⟩ := refuse_eq_ok.1 hx
      cases hb
      exact ⟨hp, hl⟩
    · rintro ⟨hp, hl⟩
      exact ⟨_, refuse_eq_ok.2 ⟨hp, rfl⟩, hl⟩

/-- Two computations fail alike, or both return, and what they return is related. -/
def Agree (R : β → γ → Prop) : Except η β → Except η γ → Prop
  | .ok b, .ok c => R b c
  | .error e, .error e' => e = e'
  | _, _ => False

theorem Agree.bind {θ : Type} {R : β → γ → Prop} {S : δ → θ → Prop} {x : Except η β}
    {y : Except η γ} {f : β → Except η δ} {g : γ → Except η θ} (h : Agree R x y)
    (hf : ∀ b c, x = .ok b → y = .ok c → R b c → Agree S (f b) (g c)) :
    Agree S (x >>= f) (y >>= g) := by
  cases x with
  | ok b =>
    cases y with
    | ok c => exact hf b c rfl rfl h
    | error e => exact h.elim
  | error e =>
    cases y with
    | ok c => exact h.elim
    | error e' => exact h

theorem Agree.map {θ : Type} {R : β → γ → Prop} {S : δ → θ → Prop} {x : Except η β}
    {y : Except η γ} {f : β → δ} {g : γ → θ} (h : Agree R x y)
    (hf : ∀ b c, R b c → S (f b) (g c)) : Agree S (x.map f) (y.map g) := by
  cases x with
  | ok b =>
    cases y with
    | ok c => exact hf b c h
    | error e => exact h.elim
  | error e =>
    cases y with
    | ok c => exact h.elim
    | error e' => exact h

/-- Computations whose results look the same when something is left out are the same without it. -/
theorem Agree.map_eq {R : β → γ → Prop} {x : Except η β} {y : Except η γ} {f : β → δ} {g : γ → δ}
    (h : Agree R x y) (hf : ∀ b c, R b c → g c = f b) : y.map g = x.map f := by
  have hmap : Agree (fun b c => c = b) (x.map f) (y.map g) := h.map hf
  revert hmap
  cases x.map f <;> cases y.map g <;> simp [Agree, eq_comm]

theorem Agree.rel {R : β → γ → Prop} {x : Except η β} {y : Except η γ} {b : β} {c : γ}
    (h : Agree R x y) (hx : x = .ok b) (hy : y = .ok c) : R b c := by
  subst hx hy
  exact h

theorem Agree.exists_ok {R : β → γ → Prop} {y : Except η γ} {b : β} (h : Agree R (.ok b) y) :
    ∃ c, y = .ok c ∧ R b c := by
  cases y with
  | ok c => exact ⟨c, rfl, h⟩
  | error e => exact h.elim

theorem exists_ok_of_any {x : Except η β} {f : β → Bool} (h : x.toOption.any f = true) :
    ∃ b, x = .ok b ∧ f b = true := by
  cases x with
  | ok b => exact ⟨b, rfl, h⟩
  | error e => cases h

/-- The error of a computation that fails. -/
def errorOf? : Except η β → Option η
  | .ok _ => none
  | .error e => some e

theorem exists_error_of_any {x : Except η β} {f : η → Bool} (h : (errorOf? x).any f = true) :
    ∃ e, x = .error e ∧ f e = true := by
  cases x with
  | ok b => cases h
  | error e => exact ⟨e, rfl, h⟩

end Except

namespace Run

variable {ε η β γ : Type}

/-- A run of two parts returns when both do. -/
@[simp] theorem outcome_bind_eq_ok {x : Run ε η β} {f : β → Run ε η γ} {c : γ} :
    (x >>= f).outcome = .ok c ↔ ∃ b, x.outcome = .ok b ∧ (f b).outcome = .ok c := by
  rw [outcome_bind, bind_eq_ok]

/-- A run of two parts fails when one of them does. -/
theorem outcome_bind_eq_error {x : Run ε η β} {f : β → Run ε η γ} {e : η} :
    (x >>= f).outcome = .error e ↔
      x.outcome = .error e ∨ ∃ b, x.outcome = .ok b ∧ (f b).outcome = .error e := by
  rw [outcome_bind, bind_eq_error]

theorem outcome_bind_pure (x : Run ε η β) (f : β → γ) :
    (x >>= fun b => Pure.pure (f b)).outcome = x.outcome.map f := by
  rw [outcome_bind]
  cases x.outcome <;> rfl

theorem outcome_map_eq_ok {x : Run ε η β} {f : β → γ} {c : γ} :
    (f <$> x).outcome = .ok c ↔ ∃ b, x.outcome = .ok b ∧ f b = c := by
  show (x >>= Pure.pure ∘ f).outcome = .ok c ↔ _
  simp

/-- A run that refuses a condition returns only if it does not hold. -/
theorem outcome_refuse_eq_ok {p : Prop} [Decidable p] {e : η} {f : β → Run ε η γ}
    {x : Run ε η γ} {c : γ} :
    (if p then fail e >>= f else x).outcome = .ok c ↔ ¬ p ∧ x.outcome = .ok c := by
  split
  next hp => simp [hp, outcome_bind_eq_ok, fail]
  next hp => simp [hp]

@[simp] theorem outcome_ofExcept (x : Except η β) : (ofExcept x : Run ε η β).outcome = x := rfl

@[simp] theorem outcome_report (e : ε) : (report e : Run ε η Unit).outcome = .ok () := rfl

@[simp] theorem outcome_reportIf (condition : Bool) (e : ε) :
    (reportIf condition e : Run ε η Unit).outcome = .ok () := by
  cases condition <;> rfl

end Run

end TrajOpt
