import TrajOpt.Solve.Infeasible

/-!
# Solutions

What a solve returns: the path with its cost and violation, the status of the last stage, the
history, and counts over all stages.

## Main definitions

* `Solution`, `Solution.converged` - the result of a solve.
* `Summary` - the counts.
-/

namespace TrajOpt

/-- Counts over the stages of a solve, and where its last stage ended. -/
structure Summary (α : Type) where
  /-- The outer iterations of each stage. -/
  outerIterations : List Nat
  /-- The inner iterations of all stages. -/
  innerIterations : Nat
  /-- The largest penalty at the end. -/
  largestPenalty : α
  /-- The decrease of the cost in the last inner iteration, if a step was taken. -/
  decrease : Option α
  /-- The stages of the history. -/
  stages : List Stage

/-- The result of a solve. A path that was not solved for has neither a history nor a summary. -/
structure Solution (α : Type) (n m : Nat) where
  path : Path α n m
  dt : α
  cost : α
  violation : α
  status : Status
  history : Option (History (Snapshot α))
  summary : Option (Summary α)

namespace Solution

variable {α : Type} {n m p q : Nat}

/-- Whether the problem was solved. -/
def converged (s : Solution α n m) : Bool := s.status == .solved

/-- The number of intervals. -/
def horizon (s : Solution α n m) : Nat := s.path.knots.length

/-- The number of states. -/
def stateDimension (_ : Solution α n m) : Nat := n

/-- The number of controls. -/
def controlDimension (_ : Solution α n m) : Nat := m

/-- The stages of all entries of the history. -/
def stages (s : Solution α n m) : List Stage := (s.history.map History.stages).getD []

/-- A path of zeros that was not solved for. -/
def blank [Arith α] (intervals : Nat) (dt : α) (status : Status) : Solution α n m where
  path := ⟨List.replicate intervals ⟨Vec.zero n, Vec.zero m⟩, Vec.zero n⟩
  dt
  cost := 0
  violation := 0
  status
  history := none
  summary := none

/-- The solution that the last stage of a solve ended with, where the two lists hold the outer and
the inner iterations of all stages. -/
def ofResult [Scalar α] (dt : α) (last : Outer.Result α n m p q) (outer inner : List Nat) :
    Solution α n m where
  path := last.workspace.path
  dt
  cost := last.workspace.cost
  violation := last.workspace.violation
  status := last.status
  history := some last.history
  summary := some {
    outerIterations := outer
    innerIterations := inner.foldl (· + ·) 0
    largestPenalty := last.workspace.multipliers.largestPenalty
    decrease := last.decrease
    stages := last.history.distinctStages }

end Solution

end TrajOpt
