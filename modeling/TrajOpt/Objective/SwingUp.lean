import TrajOpt.Objective

/-!
# Swinging the pendulum up

The pendulum hangs at rest and is to stand upright and at rest at the final time. Deviations along
the way hardly count, the final one counts a lot.
-/

namespace TrajOpt

namespace SwingUp

variable {α : Type} [Scalar α]

/-- The final time unless another one is asked for. -/
def standardTime : FinalTime α := .time 5.0

/-- The weight of the torque unless another one is asked for. -/
def standardWeight : α := 1e-3

/-- The named fields of the cost. -/
def fields (tf : FinalTime α) (weight : α) : List (ObjectiveField α) :=
  [.cost "Q" (.Q (.ofMat (Mat.diagonal 2 (1e-3 : α)))),
    .cost "R" (.R (.ofMat (Mat.diagonal 1 weight))),
    .cost "Qf" (.Qf (.ofMat (Mat.diagonal 2 (100.0 : α)))),
    .cost "tf" (.tf tf),
    .cost "x0" (.x0 (.ofVec #v[(0 : α), 0])),
    .cost "xf" (.xf (.ofVec #v[(3.141592653589793 : α), 0]))]

/-- The objective without constraints. -/
def objective (tf : FinalTime α) (weight : α) : Run (Event α) (Error α) (Sized (Objective α)) :=
  Objective.createUnconstrained (fields tf weight)

end SwingUp

end TrajOpt
