import TrajOpt.Descent.Regularization

/-!
# Descent along gains

The inner solver improves a path step by step. Each iteration expands the cost around the path, runs
the regularized backward pass for the gains, and searches along the step sizes 1, ½, ¼, … for a path
under these gains that decreases the cost about as much as expected.

The solver knows the cost by an `Aim` only: its value, its expansion and the violation of
constraints, which selects the tolerance of the stopping rule.

## Main definitions

* `Descent.lineSearch` - the first step size that is accepted.
* `Descent.iteration` - one iteration.
* `Descent.solve` - iterations until the solver stops.
-/

namespace TrajOpt

/-- What the inner solver has to know about the cost of a path and about its constraints. -/
structure Aim (α : Type) (n m : Nat) where
  step : Vec α n → Vec α m → Vec α n
  cost : Path α n m → α
  expand : Path α n m → Expansion α n m
  violation : Path α n m → α

namespace Descent

/-- Where the inner solver stands: the path, its cost, the gains of the last backward pass, the
decrease of the last iteration, if there was a step, and the regularization. -/
structure Iterate (α : Type) (n m : Nat) where
  path : Path α n m
  cost : α
  gains : List (Gain α n m)
  decrease : Option α
  reg : Regularization α

/-- How the inner solver ended. -/
structure Result (α : Type) (n m : Nat) where
  final : Iterate α n m
  iterations : Nat
  status : Status

/-- A path that a line search accepts, its cost, and the step size that led to it. -/
structure Step (α : Type) (n m : Nat) where
  path : Path α n m
  cost : α
  size : α

variable {α : Type} [Scalar α] {n m : Nat}

/-- The step size number `i`. -/
def stepSize (i : Nat) : α := Arith.powNat 0.5 i

/-- The path under the gains for one step size, if it is finite and its cost decreases within the
given bounds of the expected decrease. -/
def tryStep (o : Options α) (aim : Aim α n m) (path : Path α n m) (cost : α)
    (sweep : Riccati.Sweep α n m) (size : α) : Option (Step α n m) :=
  let next := Path.closedLoop aim.step size path sweep.gains
  if !next.isFinite then none
  else
    let reached := aim.cost next
    if !Scalar.isFinite reached then none
    else
      let expected := -sweep.expectedChange size
      if expected ≤ 0 then none
      else
        let quotient := (cost - reached) / expected
        if o.c1 < quotient ∧ quotient < o.c2 then some ⟨next, reached, size⟩ else none

/-- The first of the step sizes that is accepted. -/
def lineSearch (o : Options α) (aim : Aim α n m) (path : Path α n m) (cost : α)
    (sweep : Riccati.Sweep α n m) (trials : Nat) : Option (Step α n m) :=
  (List.range trials).findSome? fun i => tryStep o aim path cost sweep (stepSize i)

/-- The largest change of a control that the gains ask for, relative to the control. -/
def gradient (gains : List (Gain α n m)) (path : Path α n m) : α :=
  (List.zipWith (fun (g : Gain α n m) u =>
    Vec.maximum 0 (Vector.zipWith (fun d u => Scalar.abs d / (Scalar.abs u + 1)) g.d u)) gains
    path.controls).foldl Arith.maximum 0

/-- The cost change at which the solver stops, for the violation that was reached. -/
def tolerance (o : Options α) (violation : α) : α :=
  if violation < o.epsConstraint then o.costTolerance else o.costToleranceIntermediate

/-- One iteration. The status is given if the solver stops with it. -/
def iteration (o : Options α) (aim : Aim α n m) (number : Nat) (s : Iterate α n m) :
    Run (Event α) (Error α) (Iterate α n m × Option Status) := do
  let (reg, sweep) ← regularizedBackwardPass o (aim.expand s.path) s.reg
  match sweep with
  | .error gains => return ({ s with reg, gains }, some .backwardPassFailed)
  | .ok sweep =>
    let s := { s with reg, gains := sweep.gains }
    let gradient := gradient sweep.gains s.path
    if gradient < o.gradientTolerance then return ({ s with decrease := some 0 }, some .solved)
    let trials ← Run.ofExcept (o.counted .lineSearch)
    match lineSearch o aim s.path s.cost sweep trials with
    | none =>
      let reg ← s.reg.raise o
      return ({ s with reg }, if reg.exhausted o then some .lineSearchFailed else none)
    | some step =>
      let reg := s.reg.decrease o
      let decrease := s.cost - step.cost
      let violation := aim.violation step.path
      Run.reportIf o.verbose.isTrue
        (.innerIteration number step.cost decrease gradient step.size reg.weight violation)
      let tolerance := tolerance o violation
      let stops := decrease < tolerance ∨ decrease < tolerance * Scalar.abs step.cost
      return ({ s with path := step.path, cost := step.cost, decrease := some decrease, reg },
        if stops then some .solved else none)

/-- Iterations until the solver stops or the budget is used up. The first number is what is left of
the budget, the second one the iterations that are done. -/
def loop (o : Options α) (aim : Aim α n m) :
    Nat → Nat → Iterate α n m → Run (Event α) (Error α) (Result α n m)
  | 0, done, s => pure ⟨s, done, .maxIterations⟩
  | left + 1, done, s => do
    let (s, stop) ← iteration o aim (done + 1) s
    match stop with
    | some status => return ⟨s, done + 1, status⟩
    | none => loop o aim left (done + 1) s

/-- Where the solver starts on a path. -/
def start (o : Options α) (aim : Aim α n m) (path : Path α n m) : Iterate α n m where
  path
  cost := aim.cost path
  gains := path.knots.map fun _ => ⟨Mat.zero m n, Vec.zero m⟩
  decrease := none
  reg := .start o

/-- Improves a path until the solver stops. -/
def solve (o : Options α) (aim : Aim α n m) (path : Path α n m) :
    Run (Event α) (Error α) (Result α n m) :=
  loop o aim (o.budgetNat .iterations) 0 (start o aim path)

end Descent

end TrajOpt
