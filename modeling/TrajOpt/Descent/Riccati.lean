import TrajOpt.Linear.Cholesky
import TrajOpt.Problem

/-!
# Riccati recursion

The quadratic model of the cost along a path is minimized over controls that react to deviations of
the state, from the last knot backward. With the value function of the following state,

  `Qx = lx + Aᵀ Vx`, `Qu = lu + Bᵀ Vx`,
  `Qxx = lxx + Aᵀ Vxx A`, `Quu = luu + Bᵀ Vxx B`, `Qux = lux + Bᵀ Vxx A`,

the gains of a knot are `K = -(Quu + ρ I)⁻¹ Qux` and `d = -(Quu + ρ I)⁻¹ Qu`. The recursion fails
where `Quu + ρ I` is not positive definite.

## Main definitions

* `Riccati.backwardPass` - the gains of all knots and the expected change of the cost.
* `Riccati.backwardAttempt` - the same for a recursion that fails.
-/

namespace TrajOpt

namespace Riccati

/-- What the recursion carries from a knot to the one before it: the quadratic value function of the
state there, the gains from there on, and the linear and the quadratic part of the expected change
of the cost. -/
structure Sweep (α : Type) (n m : Nat) where
  Vx : Vec α n
  Vxx : Mat α n n
  gains : List (Gain α n m)
  linear : α
  quadratic : α

variable {α : Type} [Scalar α] {n m : Nat}

/-- The sweep before any knot. -/
def start (e : Expansion α n m) : Sweep α n m := ⟨e.Vx, e.Vxx, [], 0, 0⟩

/-- The control Hessian of a knot, from the value function of the next state. -/
def controlHessian (e : StageExpansion α n m) (s : Sweep α n m) : Mat α m m :=
  e.luu + Mat.mul (Mat.mul e.B.transpose s.Vxx) e.B

/-- The sweep one knot further back, where `solve` solves the systems of the regularized control
Hessian. -/
def stageWith (solve : Vec α m → Vec α m) (e : StageExpansion α n m) (s : Sweep α n m) :
    Sweep α n m :=
  let AtV := Mat.mul e.A.transpose s.Vxx
  let BtV := Mat.mul e.B.transpose s.Vxx
  let Qx := e.lx + Mat.vecMul s.Vx e.A
  let Qu := e.lu + Mat.vecMul s.Vx e.B
  let Qxx := e.lxx + Mat.mul AtV e.A
  let Quu := controlHessian e s
  let Qux := e.lux + Mat.mul BtV e.A
  let d := -solve Qu
  let K : Mat α m n := (Mat.transpose (Qux.transpose.map solve)).map (- ·)
  let Kt := K.transpose
  let KtQuu := Mat.mul Kt Quu
  { Vx := Qx + KtQuu.mulVec d + Kt.mulVec Qu + Qux.transpose.mulVec d
    Vxx := (Qxx + Mat.mul KtQuu K + Mat.mul Kt Qux + Mat.mul Qux.transpose K).symmetrize
    gains := ⟨K, d⟩ :: s.gains
    linear := s.linear + Vec.dot d Qu
    quadratic := s.quadratic + Mat.halfForm Quu d }

/-- The sweep one knot further back, if the regularized control Hessian is positive definite. -/
def stage (rho : α) (e : StageExpansion α n m) (s : Sweep α n m) : Option (Sweep α n m) :=
  ((controlHessian e s).regularize rho).factor?.map fun l => stageWith l.solve e s

/-- The sweep over all stages of a list, the last one first. -/
def sweep (rho : α) (s : Sweep α n m) : List (StageExpansion α n m) → Option (Sweep α n m)
  | [] => some s
  | e :: es => (sweep rho s es).bind (stage rho e)

/-- The sweep over a whole expansion with the regularization `rho`. -/
def backwardPass (e : Expansion α n m) (rho : α) : Option (Sweep α n m) :=
  sweep rho (start e) e.stages

/-- The sweep over all stages of a list, whether or not the control Hessians are positive definite:
where one is not, nothing in its gain is a number. -/
def attempt (rho : α) (s : Sweep α n m) : List (StageExpansion α n m) → Sweep α n m
  | [] => s
  | e :: es =>
    let s := attempt rho s es
    stageWith ((controlHessian e s).regularize rho).solveAnyway e s

/-- What the sweep over a whole expansion leaves behind, even if it fails. -/
def backwardAttempt (e : Expansion α n m) (rho : α) : Sweep α n m := attempt rho (start e) e.stages

/-- The change of the cost that a step of the given size is expected to bring. -/
def Sweep.expectedChange (s : Sweep α n m) (size : α) : α :=
  size * s.linear + size * size * s.quadratic

end Riccati

end TrajOpt
