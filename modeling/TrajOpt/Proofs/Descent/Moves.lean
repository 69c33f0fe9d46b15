import TrajOpt.Descent
import TrajOpt.Proofs.Options
import TrajOpt.Proofs.Outcome
import TrajOpt.Proofs.Path

/-!
# Moves of the inner solver

An iteration first finds out what to do and then does it. What it does is one of four moves: it
gives up because no backward pass succeeds, it stops because the gains ask for hardly any change, it
rejects all step sizes, or it takes a step. The iterate that follows is a function of the move, so
whatever holds along a run is shown once for each move.

## Main definitions

* `Descent.Move`, `Descent.move`, `Descent.Move.carryOut` - the moves, how one is found, and what it
  leads to.
* `Descent.moves`, `Descent.solveMoves` - all moves of a run, in order.
* `Options.steps` - the options as far as an iteration reads them.

## Main statements

* `Descent.outcome_iteration`, `Descent.outcome_loop` - an iteration finds a move and carries it
  out, and the loop goes on from there.
* `Descent.move_eq_ok`, `Descent.move_of_pass` - which move is found.
* `Descent.gains_carryOut` - which gains a move leaves.
* `Descent.outcome_solve_congr` - a run depends on the steps of its options and on its budget only.
* `Descent.loop_induction` - what every move preserves holds at the end of a run.
* `Descent.solve_isRollout` - a run from a path of the dynamics ends in one.
* `Descent.interrupts_of_solve`, `Descent.status_of_solve` - how a run fails, and how it ends if it
  does not.
-/

namespace TrajOpt

namespace Riccati

variable {α : Type} [Scalar α] {n m : Nat}

@[simp] theorem length_gains_stageWith (solve : Vec α m → Vec α m) (e : StageExpansion α n m)
    (s : Sweep α n m) : (stageWith solve e s).gains.length = s.gains.length + 1 := rfl

theorem length_gains_sweep {rho : α} {s t : Sweep α n m} {es : List (StageExpansion α n m)}
    (h : sweep rho s es = some t) : t.gains.length = es.length + s.gains.length := by
  induction es generalizing t with
  | nil => cases h; simp
  | cons e es ih =>
    obtain ⟨u, hu, ht⟩ := Option.bind_eq_some_iff.1 h
    obtain ⟨l, _, rfl⟩ := Option.map_eq_some_iff.1 ht
    simp [ih hu]
    omega

/-- A matrix with a factor is solved with it. -/
theorem solveAnyway_of_factor? {a : Mat α m m} {l : Cholesky α m} (h : a.factor? = some l) :
    a.solveAnyway = l.solve := by
  obtain ⟨hl, -⟩ := Option.filter_eq_some_iff.1 h
  funext b
  rw [Mat.solveAnyway, hl]

/-- A sweep that succeeds is what it leaves behind. -/
theorem attempt_of_sweep {rho : α} {s t : Sweep α n m} {es : List (StageExpansion α n m)}
    (h : sweep rho s es = some t) : attempt rho s es = t := by
  induction es generalizing t with
  | nil =>
    cases h
    rfl
  | cons e es ih =>
    obtain ⟨u, hu, ht⟩ := Option.bind_eq_some_iff.1 h
    obtain ⟨l, hl, rfl⟩ := Option.map_eq_some_iff.1 ht
    rw [attempt, ih hu]
    exact congrArg (stageWith · e u) (solveAnyway_of_factor? hl)

end Riccati

/-- The options as far as an iteration of the inner solver reads them: neither the budgets of the
loops around it nor what is reported and kept. -/
def Options.steps {ν : Type} (o : Options ν) : Options ν :=
  { o with
    iterations := .int 0
    iterationsOuter := .int 0
    verbose := .truth false
    cache := .truth false }

section Pass

variable {α ν : Type} [Scalar α] {n m : Nat}

theorem searchRegularization_steps (o : Options α) (e : Expansion α n m) (passes : Nat)
    (r : Regularization α) :
    (searchRegularization o.steps e passes r : Run (Event α) (Error ν) _) =
      searchRegularization o e passes r := by
  induction passes generalizing r with
  | zero => rfl
  | succ passes ih =>
    simp only [searchRegularization]
    cases Riccati.backwardPass e r.weight with
    | some sweep => rfl
    | none => simp only [ih]; rfl

/-- A search for the regularization that succeeds ends with a backward pass that does. -/
theorem backwardPass_of_search {o : Options α} {e : Expansion α n m} {passes : Nat}
    {r r' : Regularization α} {sweep : Riccati.Sweep α n m}
    (h : (searchRegularization o e passes r : Run (Event α) (Error ν) _).outcome =
      .ok (r', .ok sweep)) :
    Riccati.backwardPass e r'.weight = some sweep := by
  induction passes generalizing r with
  | zero => cases h
  | succ passes ih =>
    rw [searchRegularization] at h
    cases hp : Riccati.backwardPass e r.weight with
    | some s =>
      simp only [hp, Run.outcome_pure, Except.ok.injEq, Prod.mk.injEq] at h
      obtain ⟨rfl, rfl⟩ := h
      exact hp
    | none =>
      simp only [hp, Run.outcome_bind_eq_ok] at h
      obtain ⟨raised, _, h⟩ := h
      split at h
      · simp at h
      · exact ih h

/-- A search for the regularization that fails leaves the gains of the last backward pass, from
which one more increase made the weight too large. -/
theorem attempt_of_search {o : Options α} {e : Expansion α n m} {passes : Nat}
    {r r' : Regularization α} {gains : List (Gain α n m)}
    (h : (searchRegularization o e passes r : Run (Event α) (Error ν) _).outcome =
      .ok (r', .error gains)) :
    ∃ last : Regularization α, Riccati.backwardPass e last.weight = none ∧
      r' = last.increase o ∧ r'.exhausted o = true ∧
      gains = (Riccati.backwardAttempt e last.weight).gains := by
  induction passes generalizing r with
  | zero => cases h
  | succ passes ih =>
    rw [searchRegularization] at h
    cases hp : Riccati.backwardPass e r.weight with
    | some s => simp [hp] at h
    | none =>
      simp only [hp, Run.outcome_bind_eq_ok] at h
      obtain ⟨raised, hraised, h⟩ := h
      obtain rfl : r.increase o = raised := Except.ok.inj hraised
      split at h
      next hexhausted =>
        cases h
        exact ⟨r, hp, rfl, hexhausted, rfl⟩
      next => exact ih h

/-- What every increase preserves holds of the regularization that a search ends with. -/
theorem search_invariant {P : Regularization α → Prop} {o : Options α}
    (hincrease : ∀ r, P r → P (r.increase o)) {e : Expansion α n m} {passes : Nat}
    {r r' : Regularization α} {found : Except (List (Gain α n m)) (Riccati.Sweep α n m)}
    (h : (searchRegularization o e passes r : Run (Event α) (Error ν) _).outcome = .ok (r', found))
    (hr : P r) : P r' := by
  induction passes generalizing r with
  | zero => cases h
  | succ passes ih =>
    rw [searchRegularization] at h
    cases hp : Riccati.backwardPass e r.weight with
    | some s =>
      rw [hp] at h
      cases h
      exact hr
    | none =>
      simp only [hp, Run.outcome_bind_eq_ok] at h
      obtain ⟨raised, hraised, h⟩ := h
      obtain rfl : r.increase o = raised := Except.ok.inj hraised
      split at h
      · cases h
        exact hincrease r hr
      · exact ih h (hincrease r hr)

/-- A search for the regularization only fails by counting as endless. -/
theorem search_eq_error {o : Options α} {e : Expansion α n m} {passes : Nat}
    {r : Regularization α} {error : Error ν}
    (h : (searchRegularization o e passes r : Run (Event α) (Error ν) _).outcome = .error error) :
    error = .endless := by
  induction passes generalizing r with
  | zero =>
    cases h
    rfl
  | succ passes ih =>
    rw [searchRegularization] at h
    cases hp : Riccati.backwardPass e r.weight with
    | some s => simp [hp] at h
    | none =>
      simp only [hp, Run.outcome_bind_eq_error] at h
      obtain ⟨⟨⟩⟩ | ⟨raised, -, h⟩ := h
      split at h
      · cases h
      · exact ih h

/-- A search is over where the backward pass succeeds. -/
theorem regularizedBackwardPass_of_isSome {o : Options α} {e : Expansion α n m}
    {r : Regularization α} {sweep : Riccati.Sweep α n m}
    (h : Riccati.backwardPass e r.weight = some sweep) :
    (regularizedBackwardPass o e r : Run (Event α) (Error ν) _).outcome = .ok (r, .ok sweep) := by
  obtain ⟨passes, hpasses⟩ := Nat.exists_eq_add_one.2 (show 0 < passLimit by decide)
  rw [regularizedBackwardPass, hpasses, searchRegularization, h]
  rfl

theorem length_gains_of_pass {o : Options α} {e : Expansion α n m} {r r' : Regularization α}
    {sweep : Riccati.Sweep α n m}
    (h : (regularizedBackwardPass o e r : Run (Event α) (Error ν) _).outcome =
      .ok (r', .ok sweep)) :
    sweep.gains.length = e.stages.length := by
  simpa [Riccati.start] using Riccati.length_gains_sweep (backwardPass_of_search h)

end Pass

namespace Descent

variable {α : Type} [Scalar α] {n m : Nat} {o : Options α} {aim : Aim α n m}

section LineSearch

variable {path : Path α n m} {cost : α} {sweep : Riccati.Sweep α n m} {step : Step α n m}

/-- A step size is accepted for a finite path of finite cost whose decrease stands to the expected
one within the bounds. -/
theorem tryStep_eq_some {size : α} (h : tryStep o aim path cost sweep size = some step) :
    step.path = Path.closedLoop aim.step size path sweep.gains ∧
      step.cost = aim.cost step.path ∧
      step.path.isFinite = true ∧ Scalar.isFinite step.cost = true ∧
      ¬ -sweep.expectedChange size ≤ 0 ∧
      o.c1 < (cost - step.cost) / -sweep.expectedChange size ∧
      (cost - step.cost) / -sweep.expectedChange size < o.c2 := by
  unfold tryStep at h
  simp only [Bool.not_eq_true', Option.ite_none_left_eq_some, Bool.not_eq_false,
    Option.ite_none_right_eq_some, Option.some.injEq] at h
  obtain ⟨hpath, hcost, hexpected, ⟨hc1, hc2⟩, rfl⟩ := h
  exact ⟨rfl, rfl, hpath, hcost, hexpected, hc1, hc2⟩

theorem lineSearch_eq_some {trials : Nat}
    (h : lineSearch o aim path cost sweep trials = some step) :
    ∃ size, tryStep o aim path cost sweep size = some step := by
  obtain ⟨i, _, hi⟩ := List.exists_of_findSome?_eq_some h
  exact ⟨stepSize i, hi⟩

end LineSearch

/-- What an iteration does, with the gains of its backward pass. -/
inductive Move (α : Type) (n m : Nat) where
  /-- No backward pass succeeds, and the gains are those of the last one. -/
  | stuck (gains : List (Gain α n m))
  /-- The gains ask for hardly any change. -/
  | stationary (gains : List (Gain α n m))
  /-- No step size is accepted. -/
  | rejected (gains : List (Gain α n m))
  | taken (gains : List (Gain α n m)) (step : Step α n m)

/-- The move of the iteration from an iterate, and the regularization of its backward pass. -/
def move (o : Options α) (aim : Aim α n m) (s : Iterate α n m) :
    Except (Error α) (Regularization α × Move α n m) := do
  let (reg, sweep) ← (regularizedBackwardPass o (aim.expand s.path) s.reg).outcome
  match sweep with
  | .error gains => return (reg, .stuck gains)
  | .ok sweep =>
    if gradient sweep.gains s.path < o.gradientTolerance then
      return (reg, .stationary sweep.gains)
    let trials ← o.counted .lineSearch
    match lineSearch o aim s.path s.cost sweep trials with
    | none => return (reg, .rejected sweep.gains)
    | some step => return (reg, .taken sweep.gains step)

/-- The iterate after a move, and the status if the solver stops with it. -/
def Move.carryOut (o : Options α) (aim : Aim α n m) (s : Iterate α n m) (reg : Regularization α) :
    Move α n m → Iterate α n m × Option Status
  | stuck gains => ({ s with reg, gains }, some .backwardPassFailed)
  | stationary gains => ({ s with reg, gains, decrease := some 0 }, some .solved)
  | rejected gains =>
    let reg := reg.increase o
    ({ s with reg, gains }, if reg.exhausted o then some .lineSearchFailed else none)
  | taken gains step =>
    let decrease := s.cost - step.cost
    let tolerance := tolerance o (aim.violation step.path)
    let stops := decrease < tolerance ∨ decrease < tolerance * Scalar.abs step.cost
    ({ path := step.path, cost := step.cost, gains, decrease := some decrease,
       reg := reg.decrease o },
      if stops then some .solved else none)

/-- The moves of a run from an iterate with the given budget, in order. -/
def moves (o : Options α) (aim : Aim α n m) : Nat → Iterate α n m → List (Move α n m)
  | 0, _ => []
  | left + 1, s =>
    match move o aim s with
    | .error _ => []
    | .ok (reg, mv) =>
      match mv.carryOut o aim s reg with
      | (_, some _) => [mv]
      | (t, none) => mv :: moves o aim left t

/-- The moves of the inner solver from a path. -/
def solveMoves (o : Options α) (aim : Aim α n m) (path : Path α n m) : List (Move α n m) :=
  moves o aim (o.budgetNat .iterations) (start o aim path)

/-- An iteration finds a move and carries it out. -/
theorem outcome_iteration (number : Nat) (s : Iterate α n m) :
    (iteration o aim number s).outcome =
      (move o aim s).map fun found => found.2.carryOut o aim s found.1 := by
  rw [iteration, move, Run.outcome_bind]
  cases (regularizedBackwardPass o (aim.expand s.path) s.reg :
    Run (Event α) (Error α) _).outcome with
  | error e => rfl
  | ok found =>
    obtain ⟨reg, gains | sweep⟩ := found
    · rfl
    · simp only [ok_bind]
      split
      · rfl
      · rw [Run.outcome_bind, Run.outcome_ofExcept]
        cases o.counted .lineSearch with
        | error e => rfl
        | ok trials =>
          simp only [ok_bind]
          cases lineSearch o aim s.path s.cost sweep trials with
          | none => rfl
          | some step =>
            rw [Run.outcome_bind, Run.outcome_reportIf]
            rfl

/-- A loop goes on from what the move of its first iteration leads to, unless it stops with it. -/
theorem outcome_loop (left done : Nat) (s : Iterate α n m) :
    (loop o aim (left + 1) done s).outcome = move o aim s >>= fun found =>
      match found.2.carryOut o aim s found.1 with
      | (t, some status) => .ok ⟨t, done + 1, status⟩
      | (t, none) => (loop o aim left (done + 1) t).outcome := by
  rw [loop, Run.outcome_bind, outcome_iteration]
  cases move o aim s with
  | error e => rfl
  | ok found =>
    obtain ⟨reg, mv⟩ := found
    simp only [Except.map, ok_bind]
    rcases mv.carryOut o aim s reg with ⟨t, _ | status⟩ <;> rfl

theorem move_steps (s : Iterate α n m) : move o.steps aim s = move o aim s := by
  simp only [move, regularizedBackwardPass, searchRegularization_steps]
  rfl

theorem outcome_loop_steps (left done : Nat) (s : Iterate α n m) :
    (loop o.steps aim left done s).outcome = (loop o aim left done s).outcome := by
  induction left generalizing done s with
  | zero => rfl
  | succ left ih =>
    rw [outcome_loop, outcome_loop, move_steps]
    congr 1
    funext found
    simp only [ih]
    rfl

/-- Options with the same steps lead to the same run within the same budget. -/
theorem outcome_loop_congr {o o' : Options α} (h : o'.steps = o.steps) (left done : Nat)
    (s : Iterate α n m) :
    (loop o' aim left done s).outcome = (loop o aim left done s).outcome := by
  rw [← outcome_loop_steps, h, outcome_loop_steps]

/-- The move from an iterate where the backward pass succeeds at once. -/
theorem move_of_pass {s : Iterate α n m} {sweep : Riccati.Sweep α n m}
    (h : Riccati.backwardPass (aim.expand s.path) s.reg.weight = some sweep) :
    move o aim s =
      if gradient sweep.gains s.path < o.gradientTolerance then
        .ok (s.reg, .stationary sweep.gains)
      else
        (o.counted .lineSearch).map fun trials =>
          (s.reg, match lineSearch o aim s.path s.cost sweep trials with
            | none => .rejected sweep.gains
            | some step => .taken sweep.gains step) := by
  rw [move, regularizedBackwardPass_of_isSome h]
  simp only [ok_bind]
  split
  · rfl
  · cases o.counted .lineSearch with
    | error e => rfl
    | ok trials =>
      simp only [ok_bind, Except.map]
      cases lineSearch o aim s.path s.cost sweep trials <;> rfl

/-- Everything that can be found out: how the backward pass ended, and what came of its gains. -/
theorem move_eq_ok {s : Iterate α n m} {reg : Regularization α} {mv : Move α n m}
    (h : move o aim s = .ok (reg, mv)) :
    ∃ pass, (regularizedBackwardPass o (aim.expand s.path) s.reg :
        Run (Event α) (Error α) _).outcome = .ok (reg, pass) ∧
      ((∃ gains, pass = .error gains ∧ mv = .stuck gains) ∨
        ∃ sweep, pass = .ok sweep ∧
          ((gradient sweep.gains s.path < o.gradientTolerance ∧ mv = .stationary sweep.gains) ∨
            mv = .rejected sweep.gains ∨
            ∃ size step, tryStep o aim s.path s.cost sweep size = some step ∧
              mv = .taken sweep.gains step)) := by
  simp only [move, bind_eq_ok] at h
  obtain ⟨⟨reg', pass⟩, hpass, h⟩ := h
  cases pass with
  | error gains =>
    cases h
    exact ⟨_, hpass, .inl ⟨gains, rfl, rfl⟩⟩
  | ok sweep =>
    dsimp only at h
    split at h
    next hgradient =>
      cases h
      exact ⟨_, hpass, .inr ⟨sweep, rfl, .inl ⟨hgradient, rfl⟩⟩⟩
    next =>
      obtain ⟨trials, -, h⟩ := bind_eq_ok.1 h
      split at h
      next =>
        cases h
        exact ⟨_, hpass, .inr ⟨sweep, rfl, .inr (.inl rfl)⟩⟩
      next step hstep =>
        cases h
        obtain ⟨size, hsize⟩ := lineSearch_eq_some hstep
        exact ⟨_, hpass, .inr ⟨sweep, rfl, .inr (.inr ⟨size, step, hsize, rfl⟩)⟩⟩

/-- The step of a move comes from a line search along the gains of a backward pass. -/
theorem move_taken {s : Iterate α n m} {reg : Regularization α} {gains : List (Gain α n m)}
    {step : Step α n m} (h : move o aim s = .ok (reg, .taken gains step)) :
    ∃ sweep size,
      (regularizedBackwardPass o (aim.expand s.path) s.reg : Run (Event α) (Error α) _).outcome =
        .ok (reg, .ok sweep) ∧
      tryStep o aim s.path s.cost sweep size = some step := by
  obtain ⟨pass, hpass,
    ⟨_, -, hmv⟩ | ⟨sweep, rfl, ⟨-, hmv⟩ | hmv | ⟨size, step', hstep, hmv⟩⟩⟩ := move_eq_ok h
  · cases hmv
  · cases hmv
  · cases hmv
  · cases hmv
    exact ⟨sweep, size, hpass, hstep⟩

/-- The gains that end a run at the gradient test are those of a backward pass, and pass the
test. -/
theorem move_stationary {s : Iterate α n m} {reg : Regularization α} {gains : List (Gain α n m)}
    (h : move o aim s = .ok (reg, .stationary gains)) :
    ∃ sweep, Riccati.backwardPass (aim.expand s.path) reg.weight = some sweep ∧
      gains = sweep.gains ∧ gradient sweep.gains s.path < o.gradientTolerance := by
  obtain ⟨pass, hpass,
    ⟨_, -, hmv⟩ | ⟨sweep, rfl, ⟨hgradient, hmv⟩ | hmv | ⟨_, _, -, hmv⟩⟩⟩ := move_eq_ok h
  · cases hmv
  · cases hmv
    exact ⟨sweep, backwardPass_of_search hpass, rfl, hgradient⟩
  · cases hmv
  · cases hmv

/-- After a move, the gains are those that its last backward pass left behind, whether that pass
succeeded or not. -/
theorem gains_carryOut {s : Iterate α n m} {reg : Regularization α} {mv : Move α n m}
    (h : move o aim s = .ok (reg, mv)) :
    ∃ weight, (mv.carryOut o aim s reg).1.gains =
      (Riccati.backwardAttempt (aim.expand s.path) weight).gains := by
  obtain ⟨pass, hpass, ⟨gains, rfl, rfl⟩ | ⟨sweep, rfl, hmv⟩⟩ := move_eq_ok h
  · obtain ⟨last, -, -, -, hgains⟩ := attempt_of_search hpass
    exact ⟨last.weight, hgains⟩
  · have hsweep : Riccati.backwardAttempt (aim.expand s.path) reg.weight = sweep :=
      Riccati.attempt_of_sweep (backwardPass_of_search hpass)
    refine ⟨reg.weight, ?_⟩
    rw [hsweep]
    obtain ⟨-, rfl⟩ | rfl | ⟨_, _, -, rfl⟩ := hmv <;> rfl

/-- No move is found if the search for the regularization counts as endless, or if the line search
cannot count. -/
theorem interrupts_of_move {s : Iterate α n m} {e : Error α} (h : move o aim s = .error e) :
    o.Interrupts e := by
  rw [move, bind_eq_error] at h
  obtain hpass | ⟨⟨reg, pass⟩, -, h⟩ := h
  · obtain rfl := search_eq_error hpass
    trivial
  · cases pass with
    | error gains => cases h
    | ok sweep =>
      dsimp only at h
      split at h
      · cases h
      · obtain hcounted | ⟨trials, -, h⟩ := bind_eq_error.1 h
        · obtain ⟨rfl, hint⟩ := Options.counted_eq_error hcounted
          exact .inr hint
        · split at h <;> cases h

/-- What every increase keeps of a regularization still holds after the backward pass of a move. -/
theorem reg_of_move {P : Regularization α → Prop} (hincrease : ∀ r, P r → P (r.increase o))
    {s : Iterate α n m} {reg : Regularization α} {mv : Move α n m} (hs : P s.reg)
    (h : move o aim s = .ok (reg, mv)) : P reg := by
  obtain ⟨pass, hpass, -⟩ := move_eq_ok h
  exact search_invariant hincrease hpass hs

/-- A move leaves the regularization of its backward pass, or takes it one step up or down. -/
theorem reg_carryOut (P : Regularization α → Prop) (hincrease : ∀ r, P r → P (r.increase o))
    (hdecrease : ∀ r, P r → P (r.decrease o)) {reg : Regularization α} (hreg : P reg)
    (mv : Move α n m) (s : Iterate α n m) : P (mv.carryOut o aim s reg).1.reg := by
  cases mv with
  | stuck gains => exact hreg
  | stationary gains => exact hreg
  | rejected gains => exact hincrease reg hreg
  | taken gains step => exact hdecrease reg hreg

/-- A step leads to its path, and ends a run only as a solved one. -/
theorem carryOut_taken {gains : List (Gain α n m)} {step : Step α n m} {s t : Iterate α n m}
    {reg : Regularization α} {stop : Option Status}
    (h : (Move.taken gains step).carryOut o aim s reg = (t, stop)) :
    t.path = step.path ∧ t.reg = reg.decrease o ∧ (stop = none ∨ stop = some .solved) := by
  obtain ⟨rfl, rfl⟩ := Prod.mk.inj h
  refine ⟨rfl, rfl, ?_⟩
  split
  · exact .inr rfl
  · exact .inl rfl

theorem eq_stuck_of_carryOut {mv : Move α n m} {s t : Iterate α n m} {reg : Regularization α}
    (h : mv.carryOut o aim s reg = (t, some .backwardPassFailed)) :
    ∃ gains, mv = .stuck gains := by
  cases mv with
  | stuck gains => exact ⟨gains, rfl⟩
  | stationary gains => cases h
  | rejected gains => simp [Move.carryOut] at h
  | taken gains step => simp [Move.carryOut] at h

/-- What every move preserves holds at the end of a run. While the run goes on, `Going` holds of the
moves so far and the iterate that they led to; `Done` holds of all moves, the last iterate and the
status of the run. -/
theorem loop_induction (Going : List (Move α n m) → Iterate α n m → Prop)
    (Done : List (Move α n m) → Iterate α n m → Status → Prop)
    (going : ∀ ms s reg mv t, Going ms s → move o aim s = .ok (reg, mv) →
      mv.carryOut o aim s reg = (t, none) → Going (ms ++ [mv]) t)
    (stop : ∀ ms s reg mv t status, Going ms s → move o aim s = .ok (reg, mv) →
      mv.carryOut o aim s reg = (t, some status) → Done (ms ++ [mv]) t status)
    (used : ∀ ms s, Going ms s → Done ms s .maxIterations)
    (ms : List (Move α n m)) {left done : Nat} {s : Iterate α n m} {r : Result α n m}
    (h : (loop o aim left done s).outcome = .ok r) (hs : Going ms s) :
    Done (ms ++ moves o aim left s) r.final r.status ∧
      r.iterations = done + (moves o aim left s).length := by
  -- Each round adds a move to those before it, so the moves so far vary with the iterate.
  induction left generalizing done s ms with
  | zero =>
    cases h
    simpa [moves] using used ms s hs
  | succ left ih =>
    rw [outcome_loop, bind_eq_ok] at h
    obtain ⟨⟨reg, mv⟩, hmove, h⟩ := h
    cases hcarry : mv.carryOut o aim s reg with
    | mk t status =>
      simp only [hcarry] at h
      cases status with
      | some status =>
        cases h
        simpa [moves, hmove, hcarry] using stop ms s reg mv t status hs hmove hcarry
      | none =>
        obtain ⟨hdone, hcount⟩ := ih _ h (going ms s reg mv t hs hmove hcarry)
        refine ⟨by simpa [moves, hmove, hcarry] using hdone, ?_⟩
        simp [moves, hmove, hcarry, hcount]
        omega

/-- A move that ends a run tells how, and it is not for want of budget. -/
theorem status_of_carryOut {mv : Move α n m} {s t : Iterate α n m} {reg : Regularization α}
    {status : Status} (h : mv.carryOut o aim s reg = (t, some status)) :
    status ≠ .unknown ∧ status ≠ .maxIterations := by
  constructor <;> rintro rfl <;> cases mv <;> simp [Move.carryOut] at h

theorem interrupts_of_loop {left done : Nat} {s : Iterate α n m} {e : Error α}
    (h : (loop o aim left done s).outcome = .error e) : o.Interrupts e := by
  induction left generalizing done s with
  | zero => cases h
  | succ left ih =>
    rw [outcome_loop, bind_eq_error] at h
    obtain hmove | ⟨⟨reg, mv⟩, -, h⟩ := h
    · exact interrupts_of_move hmove
    · dsimp only at h
      split at h
      · cases h
      · exact ih h

/-- A loop ends where the gradient test passes. -/
theorem outcome_loop_stationary {s : Iterate α n m} {reg : Regularization α}
    {gains : List (Gain α n m)} (h : move o aim s = .ok (reg, .stationary gains))
    (left done : Nat) :
    (loop o aim (left + 1) done s).outcome =
      .ok ⟨{ s with reg, gains, decrease := some 0 }, done + 1, .solved⟩ := by
  rw [outcome_loop, h]
  rfl

section Solve

variable {path : Path α n m} {r : Result α n m}

/-- What every move preserves holds of the last iterate of a run. -/
theorem solve_invariant {P : Iterate α n m → Prop} (hstart : P (start o aim path))
    (hmove : ∀ s reg mv, P s → move o aim s = .ok (reg, mv) → P (mv.carryOut o aim s reg).1)
    (h : (solve o aim path).outcome = .ok r) : P r.final := by
  refine (loop_induction (fun _ => P) (fun _ t _ => P t) ?_ ?_ (fun _ _ hs => hs) [] h hstart).1
  · intro _ s reg mv t hs hmv hcarry
    simpa [hcarry] using hmove s reg mv hs hmv
  · intro _ s reg mv t _ hs hmv hcarry
    simpa [hcarry] using hmove s reg mv hs hmv

/-- A run from a path of the dynamics ends in one that begins in the same state, and the cost is
that of the path. -/
theorem solve_isRollout (hpath : path.IsRollout aim.step)
    (h : (solve o aim path).outcome = .ok r) :
    r.final.path.IsRollout aim.step ∧ r.final.path.first = path.first ∧
      r.final.cost = aim.cost r.final.path := by
  refine solve_invariant (P := fun s => s.path.IsRollout aim.step ∧ s.path.first = path.first ∧
    s.cost = aim.cost s.path) ⟨hpath, rfl, rfl⟩ ?_ h
  intro s reg mv hs hmv
  cases mv with
  | stuck gains => exact hs
  | stationary gains => exact hs
  | rejected gains => exact hs
  | taken gains step =>
    obtain ⟨sweep, size, -, hstep⟩ := move_taken hmv
    obtain ⟨hnext, hcost, -⟩ := tryStep_eq_some hstep
    refine ⟨?_, ?_, hcost⟩
    · simpa [Move.carryOut, hnext] using
        Path.isRollout_closedLoop aim.step size s.path sweep.gains
    · simp [Move.carryOut, hnext, hs.2.1]

/-- Options with the same steps and the same budget lead to the same run. -/
theorem outcome_solve_congr {o o' : Options α} (hsteps : o'.steps = o.steps)
    (hbudget : o'.budgetNat .iterations = o.budgetNat .iterations) (path : Path α n m) :
    (solve o' aim path).outcome = (solve o aim path).outcome := by
  have hstart : start o'.steps aim path = start o.steps aim path := by rw [hsteps]
  rw [solve, solve, hbudget, outcome_loop_congr hsteps]
  exact congrArg (fun s => (loop o aim (o.budgetNat .iterations) 0 s).outcome) hstart

theorem interrupts_of_solve {e : Error α} (h : (solve o aim path).outcome = .error e) :
    o.Interrupts e :=
  interrupts_of_loop h

/-- A run that ends tells how. -/
theorem status_of_solve (h : (solve o aim path).outcome = .ok r) : r.status ≠ .unknown :=
  (loop_induction (fun _ _ => True) (fun _ _ status => status ≠ .unknown)
    (fun _ _ _ _ _ _ _ _ => trivial)
    (fun _ _ _ _ _ _ _ _ hcarry => (status_of_carryOut hcarry).1)
    (fun _ _ _ => nofun) [] h trivial).1

theorem solve_length
    (hexpand : ∀ p : Path α n m, p.knots.length = path.knots.length →
      (aim.expand p).stages.length = p.knots.length)
    (h : (solve o aim path).outcome = .ok r) :
    r.final.path.knots.length = path.knots.length := by
  refine solve_invariant (P := fun s => s.path.knots.length = path.knots.length) rfl ?_ h
  intro s reg mv hs hmv
  cases mv with
  | stuck gains => exact hs
  | stationary gains => exact hs
  | rejected gains => exact hs
  | taken gains step =>
    obtain ⟨sweep, size, hpass, hstep⟩ := move_taken hmv
    have hgains : sweep.gains.length = s.path.knots.length := by
      rw [length_gains_of_pass hpass, hexpand s.path hs]
    obtain ⟨hnext, -⟩ := tryStep_eq_some hstep
    simpa [Move.carryOut, hnext, hs] using
      Path.length_knots_closedLoop aim.step size s.path hgains

end Solve

end Descent

end TrajOpt
