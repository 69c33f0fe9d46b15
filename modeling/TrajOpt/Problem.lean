import TrajOpt.Dynamics.Model
import TrajOpt.Objective
import TrajOpt.Path

/-!
# Stage problems

What one stage of the solver minimizes: costs of the knots and of the final state of a path, under
discrete dynamics, an initial state, and constraints on the knots and on the final state. Each part
comes with its derivatives. The time step is already part of the dynamics and of the costs.

## Main definitions

* `StageProblem`, with the parts `Dynamics`, `StageCost`, `TerminalCost`, `StageConstraints` and
  `TerminalConstraints`.
* `StageProblem.cost`, `StageProblem.evaluateConstraints`, `StageProblem.expand` - the values along
  a path and the local approximation of dynamics and costs.
* `StageProblem.ofObjective` - the problem of a model and an objective.
-/

namespace TrajOpt

/-- Discrete dynamics with their derivatives along state and control. -/
structure Dynamics (α : Type) (n m : Nat) where
  step : Vec α n → Vec α m → Vec α n
  jacobians : Vec α n → Vec α m → Mat α n n × Mat α n m

/-- The cost of a knot with its derivatives. -/
structure StageCost (α : Type) (n m : Nat) where
  value : Vec α n → Vec α m → α
  terms : Vec α n → Vec α m → StageTerms α n m

/-- The cost of the final state with its derivatives. -/
structure TerminalCost (α : Type) (n : Nat) where
  value : Vec α n → α
  gradient : Vec α n → Vec α n
  hessian : Vec α n → Mat α n n

/-- The constraints on a knot with their derivatives along state and control. -/
structure StageConstraints (α : Type) (n m p : Nat) where
  value : Vec α n → Vec α m → Vec α p
  jacobians : Vec α n → Vec α m → Mat α p n × Mat α p m
  isEquality : Vec Bool p

/-- The constraints on the final state with their derivative. -/
structure TerminalConstraints (α : Type) (n q : Nat) where
  value : Vec α n → Vec α q
  jacobian : Vec α n → Mat α q n
  isEquality : Vec Bool q

/-- A problem with `n` states, `m` controls, `p` constraints on each knot and `q` on the final
state. -/
structure StageProblem (α : Type) (n m p q : Nat) where
  x0 : Vec α n
  intervals : Nat
  dt : α
  dynamics : Dynamics α n m
  stageCost : StageCost α n m
  terminalCost : TerminalCost α n
  stageConstraints : StageConstraints α n m p
  terminalConstraints : TerminalConstraints α n q

/-- The dynamics to first order and the cost to second order around a knot. -/
structure StageExpansion (α : Type) (n m : Nat) extends StageTerms α n m where
  A : Mat α n n
  B : Mat α n m

/-- The local approximation along a path: one expansion for each knot, and gradient and second
derivatives of the cost of the final state. -/
structure Expansion (α : Type) (n m : Nat) where
  stages : List (StageExpansion α n m)
  Vx : Vec α n
  Vxx : Mat α n n

/-- The constraint vectors along a path. -/
structure ConstraintValues (α : Type) (p q : Nat) where
  stages : List (Vec α p)
  terminal : Vec α q

/-- The derivatives of the constraints along a path. -/
structure ConstraintJacobians (α : Type) (n m p q : Nat) where
  stages : List (Mat α p n × Mat α p m)
  terminal : Mat α q n

namespace Objective

variable {α : Type} {n m : Nat}

/-- The number of constraints on each knot. -/
def p : Objective α n m → Nat
  | unconstrained _ => 0
  | constrained _ cs => cs.p

/-- The number of constraints on the final state. -/
def q : Objective α n m → Nat
  | unconstrained _ => 0
  | constrained _ cs => cs.q

/-- What evaluating the constraints of an objective raises. -/
def fault? : Objective α n m → Option Fault
  | unconstrained _ => none
  | constrained _ cs => cs.fault?

variable [Scalar α]

/-- The constraints of an objective on each knot. -/
def stageConstraints : (o : Objective α n m) → StageConstraints α n m o.p
  | unconstrained _ => ⟨fun _ _ => Vec.empty, fun _ _ => (Vec.empty, Vec.empty), Vec.empty⟩
  | constrained _ cs => ⟨cs.stage, cs.stageJacobians, cs.isEquality⟩

/-- The constraints of an objective on the final state. -/
def terminalConstraints : (o : Objective α n m) → TerminalConstraints α n o.q
  | unconstrained _ => ⟨fun _ => Vec.empty, fun _ => Vec.empty, Vec.empty⟩
  | constrained _ cs => ⟨cs.terminal, cs.terminalJacobian, cs.isEqualityN⟩

end Objective

namespace StageProblem

variable {α : Type} [Scalar α] {n m p q : Nat}

/-- The problem of a model and an objective over `intervals` steps of length `dt`. -/
def ofObjective (model : Model α n m) (o : Objective α n m) (dt : α) (intervals : Nat) :
    StageProblem α n m o.p o.q where
  x0 := o.cost.x0
  intervals
  dt
  dynamics := ⟨fun x u => model.step x u dt, fun x u => model.jacobians x u dt⟩
  stageCost := ⟨fun x u => o.cost.stage x u dt, fun x u => o.cost.stageTerms x u dt⟩
  terminalCost := ⟨o.cost.terminal, o.cost.terminalGradient, fun _ => o.cost.terminalHessian⟩
  stageConstraints := o.stageConstraints
  terminalConstraints := o.terminalConstraints

/-- The path of the given controls from the initial state. -/
def rollout (problem : StageProblem α n m p q) (us : List (Vec α m)) : Path α n m :=
  Path.rollout problem.dynamics.step problem.x0 us

/-- The cost of a path. -/
def cost (problem : StageProblem α n m p q) (path : Path α n m) : α :=
  (path.knots.map fun k => problem.stageCost.value k.state k.control).sum +
    problem.terminalCost.value path.final

/-- The constraint vectors along a path. -/
def evaluateConstraints (problem : StageProblem α n m p q) (path : Path α n m) :
    ConstraintValues α p q where
  stages := path.knots.map fun k => problem.stageConstraints.value k.state k.control
  terminal := problem.terminalConstraints.value path.final

/-- The derivatives of the constraints along a path. -/
def linearizeConstraints (problem : StageProblem α n m p q) (path : Path α n m) :
    ConstraintJacobians α n m p q where
  stages := path.knots.map fun k => problem.stageConstraints.jacobians k.state k.control
  terminal := problem.terminalConstraints.jacobian path.final

/-- The expansion around one knot. -/
def expandKnot (problem : StageProblem α n m p q) (k : Knot α n m) : StageExpansion α n m :=
  let (A, B) := problem.dynamics.jacobians k.state k.control
  { problem.stageCost.terms k.state k.control with A, B }

/-- The local approximation of dynamics and costs along a path. -/
def expand (problem : StageProblem α n m p q) (path : Path α n m) : Expansion α n m where
  stages := path.knots.map problem.expandKnot
  Vx := problem.terminalCost.gradient path.final
  Vxx := problem.terminalCost.hessian path.final

end StageProblem

/-- A problem of a model and an objective, with the numbers of constraints that it has. -/
structure BoundProblem (α : Type) (n m : Nat) where
  p : Nat
  q : Nat
  problem : StageProblem α n m p q
  /-- Whether the objective has constraints. -/
  constrained : Bool
  /-- What a function supplied by the user raises when the problem is evaluated. -/
  fault? : Option Fault

/-- The problem of a model and an objective, whose dimensions have to agree, over a positive number
of intervals. -/
def BoundProblem.create {α ν : Type} [Scalar α] {n m : Nat} (model : Model α n m)
    (objective : Sized (Objective α)) (dt : α) (intervals : Int) :
    Except (Error ν) (BoundProblem α n m) :=
  if h : objective.n = n ∧ objective.m = m then
    if intervals < 1 then .error (.noInterval intervals)
    else
      let o : Objective α n m := h.1 ▸ h.2 ▸ objective.value
      .ok {
        p := o.p
        q := o.q
        problem := StageProblem.ofObjective model o dt intervals.toNat
        constrained := o.isConstrained
        fault? := model.fault?.or o.fault? }
  else .error (.dimensionsDiffer .objectiveOfModel objective.n objective.m n m)

end TrajOpt
