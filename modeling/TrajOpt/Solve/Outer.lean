import TrajOpt.Descent
import TrajOpt.History
import TrajOpt.Lagrangian

/-!
# Outer loop

Constraints are met by solving a sequence of problems without constraints. Each outer iteration
minimizes the augmented Lagrangian for fixed multipliers and penalties, and then updates both from
the constraint values that were reached. The loop ends when the violation is below its tolerance and
the last inner step hardly changed the cost.

## Main definitions

* `Workspace` - a path with its values, its multipliers and the gains of the last backward pass.
* `Outer.solve` - the loop.
* `Outer.solveUnconstrained` - the single inner solve of a problem without constraints.
-/

namespace TrajOpt

/-- A path, the values along it, the multipliers and penalties, and the gains of the last backward
pass. -/
structure Workspace (α : Type) (n m p q : Nat) where
  path : Path α n m
  values : ConstraintValues α p q
  multipliers : Multipliers α p q
  gains : List (Gain α n m)
  cost : α
  violation : α

/-- What a history keeps of a workspace. The rows are plain lists, since the stages of a solve
differ in the number of controls and of constraints. -/
structure Snapshot (α : Type) where
  states : List (List α)
  controls : List (List α)
  constraints : List (List α)
  terminalConstraints : List α
  lam : List (List α)
  lamN : List α
  mu : List (List α)
  muN : List α
  cost : α
  violation : α
  inner : Nat
  status : Status

/-- The largest penalty of a snapshot, at least zero. -/
def Snapshot.largestPenalty {α : Type} [Scalar α] (s : Snapshot α) : α :=
  Arith.larger (s.mu.flatten.foldl Arith.maximum 0) (s.muN.foldl Arith.maximum 0)

namespace Workspace

variable {α : Type} [Scalar α] {n m p q : Nat}

/-- The workspace of a path: its values are those of the problem. -/
def ofPath (problem : StageProblem α n m p q) (path : Path α n m) (multipliers : Multipliers α p q)
    (gains : List (Gain α n m)) : Workspace α n m p q :=
  let values := problem.evaluateConstraints path
  { path, values, multipliers, gains
    cost := problem.cost path
    violation := values.violation problem.stageConstraints.isEquality
      problem.terminalConstraints.isEquality }

/-- Gains that do not change anything. -/
def noGains (problem : StageProblem α n m p q) : List (Gain α n m) :=
  List.replicate problem.intervals ⟨Mat.zero m n, Vec.zero m⟩

/-- The workspace of the path of the given controls, with the given multipliers and equal
penalties. -/
def start (problem : StageProblem α n m p q) (us : List (Vec α m)) (mu : α)
    (lam : Option (List (Vec α p))) (lamN : Option (Vec α q)) : Workspace α n m p q :=
  let stages := lam.getD (us.map fun _ => Vec.zero p)
  ofPath problem (problem.rollout us)
    { stages := stages.map fun l => ⟨l, Vec.const p mu⟩
      terminal := ⟨lamN.getD (Vec.zero q), Vec.const q mu⟩ }
    (noGains problem)

/-- What a history keeps of the workspace. -/
def snapshot (w : Workspace α n m p q) (inner : Nat) (status : Status) : Snapshot α where
  states := w.path.states.map Vector.toList
  controls := w.path.controls.map Vector.toList
  constraints := w.values.stages.map Vector.toList
  terminalConstraints := w.values.terminal.toList
  lam := w.multipliers.stages.map fun s => s.lam.toList
  lamN := w.multipliers.terminal.lam.toList
  mu := w.multipliers.stages.map fun s => s.mu.toList
  muN := w.multipliers.terminal.mu.toList
  cost := w.cost
  violation := w.violation
  inner
  status

/-- The active constraints of the workspace, on the knots and on the final state. -/
def active (problem : StageProblem α n m p q) (w : Workspace α n m p q) :
    List (Vec Bool p) × Vec Bool q :=
  (List.zipWith (fun s c => s.active problem.stageConstraints.isEquality c) w.multipliers.stages
      w.values.stages,
    w.multipliers.terminal.active problem.terminalConstraints.isEquality w.values.terminal)

end Workspace

/-- What the inner solver has to know about an augmented Lagrangian. -/
def Lagrangian.aim {α : Type} [Scalar α] {n m p q : Nat} (l : Lagrangian α n m p q) :
    Aim α n m where
  step := l.problem.dynamics.step
  cost := l.cost
  expand := l.expand
  violation := l.violation

namespace Outer

/-- How the outer loop of a stage ended. -/
structure Result (α : Type) (n m p q : Nat) where
  workspace : Workspace α n m p q
  status : Status
  iterations : Nat
  innerIterations : Nat
  decrease : Option α
  history : History (Snapshot α)

/-- Where the outer loop stands: the workspace, the violation that the next one is compared with,
the inner iterations so far, the decrease of the last inner iteration and the history. -/
structure Iterate (α : Type) (n m p q : Nat) where
  workspace : Workspace α n m p q
  previous : α
  innerIterations : Nat
  decrease : Option α
  history : History (Snapshot α)

variable {α : Type} [Scalar α] {n m p q : Nat}

/-- How penalties grow under the given options. -/
def penaltyRule (o : Options α) : PenaltyRule α :=
  ⟨o.penaltyFactor, o.penaltyMax, o.decreaseFraction⟩

/-- The inner solve from a workspace. -/
def descend (problem : StageProblem α n m p q) (o : Options α) (w : Workspace α n m p q) :
    Run (Event α) (Error α) (Descent.Result α n m) :=
  Descent.solve o (Lagrangian.aim ⟨problem, w.multipliers⟩) w.path

/-- Whether the loop may end: the violation is below its tolerance, and so is the last decrease. -/
def meets (o : Options α) (violation : α) (decrease : Option α) : Bool :=
  decide (violation < o.epsConstraint) && decrease.any fun d => decide (d < o.eps)

/-- The workspace with multipliers and penalties updated from its values. -/
def update (problem : StageProblem α n m p q) (o : Options α) (previous : α)
    (w : Workspace α n m p q) : Workspace α n m p q :=
  { w with
    multipliers := w.multipliers.update problem.stageConstraints.isEquality
      problem.terminalConstraints.isEquality w.values (penaltyRule o) w.violation previous }

/-- One outer iteration. The second part of the result tells whether the loop ends with it. -/
def iteration (problem : StageProblem α n m p q) (o : Options α) (stage : Stage) (number : Nat)
    (s : Iterate α n m p q) : Run (Event α) (Error α) (Iterate α n m p q × Bool) := do
  let inner ← descend problem o s.workspace
  let w := Workspace.ofPath problem inner.final.path s.workspace.multipliers inner.final.gains
  let history ← Run.ofExcept (s.history.append stage (w.snapshot inner.iterations inner.status))
  Run.reportIf o.verbose.isTrue
    (.outerIteration stage number w.cost w.violation inner.iterations inner.status
      w.multipliers.largestPenalty)
  let solved := meets o w.violation inner.final.decrease
  return ({
    workspace := if solved then w else update problem o s.previous w
    previous := w.violation
    innerIterations := s.innerIterations + inner.iterations
    decrease := inner.final.decrease
    history }, solved)

/-- The result of the loop after `iterations` iterations. -/
def Iterate.result (s : Iterate α n m p q) (status : Status) (iterations : Nat) :
    Result α n m p q :=
  ⟨s.workspace, status, iterations, s.innerIterations, s.decrease, s.history⟩

/-- Iterations until the loop may end or the budget is used up. The first number is what is left of
the budget, the second one the iterations that are done. -/
def loop (problem : StageProblem α n m p q) (o : Options α) (stage : Stage) :
    Nat → Nat → Iterate α n m p q → Run (Event α) (Error α) (Result α n m p q)
  | 0, done, s => pure (s.result .maxIterations done)
  | left + 1, done, s => do
    let (s, solved) ← iteration problem o stage (done + 1) s
    if solved then return s.result .solved (done + 1)
    else loop problem o stage left (done + 1) s

/-- Solves the constrained problem from a workspace. -/
def solve (problem : StageProblem α n m p q) (o : Options α) (w : Workspace α n m p q)
    (history : History (Snapshot α)) (stage : Stage) :
    Run (Event α) (Error α) (Result α n m p q) := do
  let budget ← Run.ofExcept (o.counted .outer)
  loop problem o stage budget 0 ⟨w, w.violation, 0, none, history⟩

/-- Solves a problem without constraints from a workspace. -/
def solveUnconstrained (problem : StageProblem α n m p q) (o : Options α)
    (w : Workspace α n m p q) (history : History (Snapshot α)) :
    Run (Event α) (Error α) (Result α n m p q) := do
  let inner ← descend problem o w
  let w := Workspace.ofPath problem inner.final.path w.multipliers inner.final.gains
  let history ← Run.ofExcept
    (history.append .unconstrained (w.snapshot inner.iterations inner.status))
  Run.reportIf o.verbose.isTrue (.unconstrainedSolve w.cost inner.iterations inner.status)
  return ⟨w, inner.status, 1, inner.iterations, inner.final.decrease, history⟩

end Outer

end TrajOpt
