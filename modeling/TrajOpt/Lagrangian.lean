import TrajOpt.Problem

/-!
# Augmented Lagrangian

Constraints enter the cost with a multiplier `λ` and a penalty `μ` each,

  `L = J + ∑ᵢ λᵢ cᵢ + ½ Iᵢ cᵢ²`,

where `Iᵢ` is `μᵢ` for an active constraint and zero otherwise. Equalities are always active, an
inequality is active when it is violated or has a positive multiplier.

## Main definitions

* `Weights`, `Multipliers` - multipliers and penalties of one constraint vector, and along a path.
* `Weights.penalty`, `Weights.updateMultipliers`, `PenaltyRule.update` - the terms of a constraint
  vector, and what follows an inner solve.
* `Lagrangian` - a problem with multipliers: its `cost`, `expand` and `violation`.
-/

namespace TrajOpt

section Entry

variable {α : Type} [Scalar α]

/-- Whether a constraint contributes to the penalty. -/
def isActive (isEquality : Bool) (c lam : α) : Bool :=
  isEquality || decide (0 < c) || decide (0 < lam)

/-- By how much a constraint is violated. -/
def violationOf (isEquality : Bool) (c : α) : α :=
  if isEquality then Scalar.abs c else Arith.maximum c 0

/-- The penalty of an active constraint, zero for one that is not active. -/
def activePenalty (isEquality : Bool) (c lam mu : α) : α :=
  if isActive isEquality c lam then mu else 0

/-- The multiplier after an update, which stays nonnegative for an inequality. -/
def updatedMultiplier (isEquality : Bool) (c lam mu : α) : α :=
  let next := lam + mu * c
  if isEquality then next else Arith.maximum next 0

end Entry

/-- The multipliers and the penalties of a constraint vector. -/
structure Weights (α : Type) (p : Nat) where
  lam : Vec α p
  mu : Vec α p

/-- The multipliers and penalties of all constraints along a path. -/
structure Multipliers (α : Type) (p q : Nat) where
  stages : List (Weights α p)
  terminal : Weights α q

/-- The largest violation of a constraint vector, at least zero. -/
def largestViolation {α : Type} [Scalar α] {p : Nat} (isEquality : Vec Bool p) (c : Vec α p) : α :=
  Vec.maximum 0 (Vector.zipWith violationOf isEquality c)

/-- The largest violation of all constraints along a path. -/
def ConstraintValues.violation {α : Type} [Scalar α] {p q : Nat} (values : ConstraintValues α p q)
    (isEquality : Vec Bool p) (isEqualityN : Vec Bool q) : α :=
  Arith.maximum
    ((values.stages.map (largestViolation isEquality)).foldl Arith.maximum 0)
    (largestViolation isEqualityN values.terminal)

namespace Weights

variable {α : Type} [Scalar α] {p : Nat}

/-- The active constraints. -/
def active (w : Weights α p) (isEquality : Vec Bool p) (values : Vec α p) : Vec Bool p :=
  Vector.ofFn fun i => isActive (isEquality.get i) (values.get i) (w.lam.get i)

/-- The penalties of the active constraints, and zeros. -/
def activePenalties (w : Weights α p) (isEquality : Vec Bool p) (values : Vec α p) : Vec α p :=
  Vector.ofFn fun i => activePenalty (isEquality.get i) (values.get i) (w.lam.get i) (w.mu.get i)

/-- The terms that a constraint vector adds to the cost. -/
def penalty (w : Weights α p) (isEquality : Vec Bool p) (values : Vec α p) : α :=
  let active := w.activePenalties isEquality values
  (Vector.ofFn fun i => w.lam.get i * values.get i +
    0.5 * active.get i * values.get i * values.get i).sum

/-- The weight with which the gradient of each constraint enters the gradient of the cost. -/
def gradientWeights (w : Weights α p) (isEquality : Vec Bool p) (values : Vec α p) : Vec α p :=
  let active := w.activePenalties isEquality values
  Vector.ofFn fun i => w.lam.get i + active.get i * values.get i

/-- The multipliers after an update. -/
def updateMultipliers (w : Weights α p) (isEquality : Vec Bool p) (values : Vec α p) : Vec α p :=
  Vector.ofFn fun i => updatedMultiplier (isEquality.get i) (values.get i) (w.lam.get i) (w.mu.get i)

end Weights

/-- How penalties grow: by a factor up to a largest value, unless the violation fell below a
fraction of its previous value. -/
structure PenaltyRule (α : Type) where
  factor : α
  largest : α
  fraction : α

namespace PenaltyRule

variable {α : Type} [Scalar α]

/-- Whether penalties grow when the violation went from `previous` to `current`. -/
def grows (rule : PenaltyRule α) (current previous : α) : Bool :=
  decide (rule.fraction * previous < current)

/-- A penalty after an update. -/
def update (rule : PenaltyRule α) (current previous mu : α) : α :=
  if rule.grows current previous then Arith.minimum (mu * rule.factor) rule.largest else mu

end PenaltyRule

namespace Multipliers

variable {α : Type} [Scalar α] {p q : Nat}

/-- All multipliers and penalties after an update. -/
def update (w : Multipliers α p q) (isEquality : Vec Bool p) (isEqualityN : Vec Bool q)
    (values : ConstraintValues α p q) (rule : PenaltyRule α) (current previous : α) :
    Multipliers α p q where
  stages := List.zipWith (fun s c =>
    ⟨s.updateMultipliers isEquality c, s.mu.map (rule.update current previous)⟩) w.stages
    values.stages
  terminal :=
    ⟨w.terminal.updateMultipliers isEqualityN values.terminal,
      w.terminal.mu.map (rule.update current previous)⟩

/-- The largest penalty, at least zero. -/
def largestPenalty (w : Multipliers α p q) : α :=
  Arith.larger ((w.stages.map fun s => Vec.maximum 0 s.mu).foldl Arith.maximum 0)
    (Vec.maximum 0 w.terminal.mu)

end Multipliers

/-- A problem whose constraints enter the cost with multipliers and penalties. -/
structure Lagrangian (α : Type) (n m p q : Nat) where
  problem : StageProblem α n m p q
  multipliers : Multipliers α p q

namespace Lagrangian

variable {α : Type} [Scalar α] {n m p q : Nat}

/-- The cost of a path with the terms of all constraints. -/
def cost (l : Lagrangian α n m p q) (path : Path α n m) : α :=
  let values := l.problem.evaluateConstraints path
  let isEquality := l.problem.stageConstraints.isEquality
  let isEqualityN := l.problem.terminalConstraints.isEquality
  l.problem.cost path +
    (List.zipWith (fun w c => w.penalty isEquality c) l.multipliers.stages values.stages).sum +
    l.multipliers.terminal.penalty isEqualityN values.terminal

/-- The product `Aᵀ D B` with a diagonal matrix between. -/
def weightedProduct {k a b : Nat} (A : Mat α k a) (weights : Vec α k) (B : Mat α k b) : Mat α a b :=
  Mat.mul A.transpose (Vector.zipWith Vec.scale weights B)

/-- The expansion of a knot with the terms of its constraints, which enter to first order. -/
def addStageTerms (isEquality : Vec Bool p) (e : StageExpansion α n m) (w : Weights α p)
    (c : Vec α p) (Cx : Mat α p n) (Cu : Mat α p m) : StageExpansion α n m :=
  let active := w.activePenalties isEquality c
  let g := w.gradientWeights isEquality c
  { e with
    lx := e.lx + Mat.vecMul g Cx
    lu := e.lu + Mat.vecMul g Cu
    lxx := e.lxx + weightedProduct Cx active Cx
    luu := e.luu + weightedProduct Cu active Cu
    lux := e.lux + weightedProduct Cu active Cx }

/-- The expansion around one knot. -/
def expandKnot (l : Lagrangian α n m p q) (k : Knot α n m) (w : Weights α p) :
    StageExpansion α n m :=
  let constraints := l.problem.stageConstraints
  let (Cx, Cu) := constraints.jacobians k.state k.control
  addStageTerms constraints.isEquality (l.problem.expandKnot k) w
    (constraints.value k.state k.control) Cx Cu

/-- The local approximation of dynamics and cost along a path. -/
def expand (l : Lagrangian α n m p q) (path : Path α n m) : Expansion α n m :=
  let constraints := l.problem.terminalConstraints
  let w := l.multipliers.terminal
  let c := constraints.value path.final
  let Cx := constraints.jacobian path.final
  let active := w.activePenalties constraints.isEquality c
  let g := w.gradientWeights constraints.isEquality c
  { stages := List.zipWith l.expandKnot path.knots l.multipliers.stages
    Vx := l.problem.terminalCost.gradient path.final + Mat.vecMul g Cx
    Vxx := l.problem.terminalCost.hessian path.final + weightedProduct Cx active Cx }

/-- The largest violation of the constraints along a path. -/
def violation (l : Lagrangian α n m p q) (path : Path α n m) : α :=
  (l.problem.evaluateConstraints path).violation l.problem.stageConstraints.isEquality
    l.problem.terminalConstraints.isEquality

end Lagrangian

end TrajOpt
