import TrajOpt.Problem

/-!
# Slack controls

A guess of the states is usually not what any controls lead to. With `n` slack controls that are
added to the state after each step, every guess becomes a path of the augmented dynamics. The slacks
have a quadratic cost and are constrained to be zero.

## Main definitions

* `StageProblem.withSlack` - the problem with slack controls after its own ones.
* `StageProblem.initialSlacks` - the slacks that make a guess a path.
-/

namespace TrajOpt

variable {α : Type} [Scalar α] {n m p q : Nat}

/-- The dynamics with slacks added to the next state. -/
def Dynamics.withSlack (dynamics : Dynamics α n m) : Dynamics α n (m + n) where
  step x v := dynamics.step x (Vec.left v) + Vec.right v
  jacobians x v :=
    let (A, B) := dynamics.jacobians x (Vec.left v)
    (A, Mat.beside B (Mat.identity n))

/-- The stage cost with `½ weight wᵀ w` added for the slacks `w`. -/
def StageCost.withSlack (cost : StageCost α n m) (weight : α) : StageCost α n (m + n) where
  value x v :=
    let w : Vec α n := Vec.right v
    cost.value x (Vec.left v) + Vec.dot (Vec.scale (0.5 * weight) w) w
  terms x v :=
    let w : Vec α n := Vec.right v
    let half := 0.5 * weight
    let t := cost.terms x (Vec.left v)
    { lx := t.lx
      lu := Vec.append t.lu (Vec.scale half w + Vec.scale half w)
      lxx := t.lxx
      luu := Mat.ofBlocks t.luu (Mat.zero m n) (Mat.zero n m) (Mat.diagonal n (half + half))
      lux := Mat.above t.lux (Mat.zero n n) }

/-- The constraints on a knot, followed by one equality for each slack. -/
def StageConstraints.withSlack (constraints : StageConstraints α n m p) :
    StageConstraints α n (m + n) (p + n) where
  value x v := Vec.append (constraints.value x (Vec.left v)) (Vec.right v)
  jacobians x v :=
    let (Cx, Cu) := constraints.jacobians x (Vec.left v)
    (Mat.above Cx (Mat.zero n n),
      Mat.ofBlocks Cu (Mat.zero p n) (Mat.zero n m) (Mat.identity n))
  isEquality := Vec.append constraints.isEquality (Vec.const n true)

namespace StageProblem

/-- The problem with slack controls after its own ones. -/
def withSlack (problem : StageProblem α n m p q) (weight : α) :
    StageProblem α n (m + n) (p + n) q where
  x0 := problem.x0
  intervals := problem.intervals
  dt := problem.dt
  dynamics := problem.dynamics.withSlack
  stageCost := problem.stageCost.withSlack weight
  terminalCost := problem.terminalCost
  stageConstraints := problem.stageConstraints.withSlack
  terminalConstraints := problem.terminalConstraints

/-- The slacks that make a guess a path; the guess begins with the initial state of the problem. -/
def initialSlacks (problem : StageProblem α n m p q) (guess : Path α n m) : List (Vec α n) :=
  (guess.setFirst problem.x0).slacks problem.dynamics.step

end StageProblem

end TrajOpt
