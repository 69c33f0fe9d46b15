import TrajOpt.Problem.Slack
import TrajOpt.Solve.Outer

/-!
# Infeasible start

A solve from a guess of states and controls has two stages. The first one solves the problem with
slack controls, from the slacks that make the guess a path, and drives the slacks out. The second
one drops what is left of them and solves the problem without slacks from the remaining controls. It
keeps the multipliers of the first stage, and its penalties start anew.

## Main definitions

* `Infeasible.solve` - both stages.
-/

namespace TrajOpt

namespace Infeasible

/-- The results of the two stages. -/
structure Result (α : Type) (n m p q : Nat) where
  infeasible : Outer.Result α n (m + n) (p + n) q
  feasible : Outer.Result α n m p q

variable {α : Type} [Scalar α] {n m p q : Nat}

/-- The controls of a guess, each followed by its slacks. -/
def slackControls (problem : StageProblem α n m p q) (guess : Path α n m) :
    List (Vec α (m + n)) :=
  List.zipWith Vec.append guess.controls (problem.initialSlacks guess)

/-- The workspace of the first stage. -/
def startWithSlack (problem : StageProblem α n m p q) (o : Options α) (guess : Path α n m) :
    Workspace α n (m + n) (p + n) q :=
  Workspace.start (problem.withSlack o.slackWeight) (slackControls problem guess) o.penaltyInitial
    none none

/-- The largest slack of controls with slacks. -/
def largestSlack (us : List (Vec α (m + n))) : α :=
  (us.map fun v =>
    Vec.maximum 0 ((Vec.right v : Vec α n).map Scalar.abs)).foldl Arith.maximum 0

/-- The workspace of the second stage: the controls without the slacks, and the multipliers of the
constraints that are not on slacks. -/
def dropSlack (problem : StageProblem α n m p q) (o : Options α)
    (w : Workspace α n (m + n) (p + n) q) : Workspace α n m p q :=
  Workspace.start problem (w.path.controls.map Vec.left) o.penaltyInitial
    (some (w.multipliers.stages.map fun s => Vec.left s.lam))
    (some w.multipliers.terminal.lam)

/-- Solves from a guess of states and controls. Slacks that remain are reported, and the second
stage starts all the same. -/
def solve (problem : StageProblem α n m p q) (o : Options α) (guess : Path α n m)
    (history : History (Snapshot α)) : Run (Event α) (Error α) (Result α n m p q) := do
  let infeasible ← Outer.solve (problem.withSlack o.slackWeight) o
    (startWithSlack problem o guess) history .infeasible
  let slack := largestSlack infeasible.workspace.path.controls
  Run.reportIf (decide (o.epsConstraint < slack)) (.slackRemains slack o.epsConstraint)
  let feasible ← Outer.solve problem o (dropSlack problem o infeasible.workspace)
    infeasible.history .feasible
  return ⟨infeasible, feasible⟩

end Infeasible

end TrajOpt
