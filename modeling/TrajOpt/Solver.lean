import TrajOpt.Solve.Solution

/-!
# Solvers

A solver binds a model, an objective, a time grid and options. It starts from controls, or from a
guess of states and controls, which need not be a path of the dynamics.

## Main definitions

* `Solver.create` - a solver, after checking the time grid and the options.
* `Solver.rollout` - the path of given controls with its cost and violation.
* `Solver.solve` - solves from a guess.
-/

namespace TrajOpt

/-- A problem on a time grid and the options to solve it with. -/
structure Solver (α : Type) (n m : Nat) where
  bound : BoundProblem α n m
  options : Options α

/-- A path with its cost and the largest violation of its constraints. -/
structure Rollout (α : Type) (n m : Nat) where
  path : Path α n m
  cost : α
  violation : α

namespace Solver

section Grid

/-- The number of intervals that come closest to the final time. A free final time says nothing
about that number. -/
def intervalsFor (tf dt : Float) : Except (Error Numeral) Int :=
  if tf == 0 then .error .intervalsRequired
  else (Numeral.nearestInteger (tf / dt)).mapError .noInteger

/-- The number of intervals, which is at least one. A number that is given has its fraction cut
off. -/
def intervals (tf dt : Float) (given : Option Numeral) : Except (Error Numeral) Int := do
  let count ← match given with
    | some count => .ok count
    | none => (intervalsFor tf dt).map Numeral.int
  if count < .int 1 then throw (.emptyHorizon count)
  count.truncate.mapError .noInteger

/-- The options that a solver works with: the given ones with some of them changed, if any change is
asked for. -/
def settings (options : Options Numeral) (changes : List (String × Numeral)) :
    Except (Error Numeral) (Options Numeral) :=
  if changes.isEmpty then .ok options else options.replace changes

/-- Builds a solver. The time step is checked first, then the changes of the options, then the
number of intervals. The solver computes with doubles, also where a number among the options was
given as an integer. -/
def create {n m : Nat} (model : Model Float n m) (objective : Sized (Objective Float))
    (dt : Numeral) (given : Option Numeral) (options : Options Numeral)
    (changes : List (String × Numeral)) :
    Except (Error Numeral) (Solver Float n m × Options Numeral) := do
  if dt ≤ .int 0 then throw (.notPositive "dt" dt)
  let options ← settings options changes
  let count ← intervals objective.value.cost.tf dt.toFloat given
  let bound ← BoundProblem.create model objective dt.toFloat count
  return (⟨bound, options.map Numeral.toFloat⟩, options)

end Grid

variable {α ν : Type} {n m : Nat}

/-- The number of intervals of the time grid. -/
def horizon (s : Solver α n m) : Nat := s.bound.problem.intervals

/-- The controls that an array holds, one row for each interval. -/
def controlsOf (s : Solver α n m) (us : Tensor α) : Except (Error ν) (List (Vec α m)) :=
  match us.toMat? s.horizon m with
  | some rows => .ok rows.toList
  | none => .error (.pathShape "controls" s.horizon m us.shape)

/-- The states that an array holds, one row more than there are intervals. -/
def statesOf (s : Solver α n m) (xs : Tensor α) : Except (Error ν) (List (Vec α n)) :=
  match xs.toMat? (s.horizon + 1) n with
  | some rows => .ok rows.toList
  | none => .error (.pathShape "states" (s.horizon + 1) n xs.shape)

/-- The first evaluation of the problem, which passes on what a function supplied by the user
raises. All evaluations have arguments of the same lengths, so none raises anything after it. -/
def evaluable (s : Solver α n m) : Except (Error ν) Unit :=
  match s.bound.fault? with
  | some fault => .error (.raised fault)
  | none => .ok ()

/-- The history of two stages has room for twice the budget of the outer loop. As a double that can
be too large. -/
def recordable (s : Solver α n m) : Except (Error ν) Unit :=
  match (Numeral.int 2 * s.options.iterationsOuter).truncate with
  | .error reason => .error (.noInteger reason)
  | .ok _ => .ok ()

variable [Scalar α]

/-- The path of the given controls with its cost and violation. -/
def rollout (s : Solver α n m) (us : List (Vec α m)) : Rollout α n m :=
  let problem := s.bound.problem
  let path := problem.rollout us
  { path
    cost := problem.cost path
    violation := (problem.evaluateConstraints path).violation problem.stageConstraints.isEquality
      problem.terminalConstraints.isEquality }

/-- An empty history for `stages` times the budget of the outer loop. -/
def historyFor (s : Solver α n m) (stages : Nat) : History (Snapshot α) :=
  .empty (stages * s.options.budgetNat .outer) s.options.cache.isTrue

/-- Solves from controls. Without constraints a single inner solve is enough. -/
def solveFromControls (s : Solver α n m) (us : List (Vec α m)) :
    Run (Event α) (Error α) (Solution α n m) := do
  let problem := s.bound.problem
  let w := Workspace.start problem us s.options.penaltyInitial none none
  let result ←
    if s.bound.constrained then
      Outer.solve problem s.options w (s.historyFor 1) .feasible
    else
      Outer.solveUnconstrained problem s.options w (.empty 1 s.options.cache.isTrue)
  return .ofResult problem.dt result [result.iterations] [result.innerIterations]

/-- Solves from a guess of states and controls. -/
def solveFromPath (s : Solver α n m) (guess : Path α n m) :
    Run (Event α) (Error α) (Solution α n m) := do
  let problem := s.bound.problem
  let stages ← Infeasible.solve problem s.options guess (s.historyFor 2)
  return .ofResult problem.dt stages.feasible
    [stages.infeasible.iterations, stages.feasible.iterations]
    [stages.infeasible.innerIterations, stages.feasible.innerIterations]

/-- Solves from the arrays of a guess: the controls alone, or the states and the controls. -/
def solve (s : Solver α n m) (guess : List (Tensor α)) :
    Run (Event α) (Error α) (Solution α n m) :=
  match guess with
  | [us] => do
    let us ← Run.ofExcept (s.controlsOf us)
    Run.ofExcept s.evaluable
    s.solveFromControls us
  | [xs, us] => do
    let xs ← Run.ofExcept (s.statesOf xs)
    let us ← Run.ofExcept (s.controlsOf us)
    match Path.ofLists? xs us with
    | some path =>
      Run.ofExcept s.recordable
      Run.ofExcept s.evaluable
      s.solveFromPath path
    | none => Run.fail .unusableArguments
  | _ => Run.fail (.guessCount guess.length)

end Solver

end TrajOpt
