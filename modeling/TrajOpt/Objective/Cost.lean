import TrajOpt.Error
import TrajOpt.Linear.Cholesky
import TrajOpt.Linear.Tensor

/-!
# Quadratic costs

The cost of a trajectory is an integral over the stages and a term for the final state,

  `∑ₖ (½ (xₖ - xf)ᵀ Q (xₖ - xf) + ½ uₖᵀ R uₖ + c) dt + ½ (x_N - xf)ᵀ Qf (x_N - xf)`.

A cost is built from named fields. The state weights have to be symmetric and positive semidefinite
up to rounding; of the control weight the lower triangle has to describe a positive definite matrix.

## Main definitions

* `QuadraticCost`, `QuadraticCost.stage`, `QuadraticCost.terminal`, `QuadraticCost.total`.
* `QuadraticCost.stageTerms` - the derivatives of the stage cost up to the second order.
* `CostDraft`, `CostDraft.build` - the named fields, and the checks that turn them into a cost.
-/

namespace TrajOpt

/-- The first and second derivatives of a function of a state and a control. -/
structure StageTerms (α : Type) (n m : Nat) where
  lx : Vec α n
  lu : Vec α m
  lxx : Mat α n n
  luu : Mat α m m
  lux : Mat α m n

namespace Mat

variable {α : Type} [Scalar α] {n : Nat}

/-- The number `½ dᵀ W d`. -/
def halfForm (w : Mat α n n) (d : Vec α n) : α := bilinear (Vec.scale 0.5 d) w d

/-- The gradient of `t · ½ dᵀ W d`, for a matrix that need not be symmetric. -/
def halfFormGradient (t : α) (w : Mat α n n) (d : Vec α n) : Vec α n :=
  Vec.scale t (vecMul (Vec.scale 0.5 d) w) + Vec.scale 0.5 (mulVec w (Vec.scale t d))

/-- The second derivatives of `t · ½ dᵀ W d`. -/
def halfFormHessian (t : α) (w : Mat α n n) : Mat α n n :=
  scale t (scale 0.5 w.transpose) + scale 0.5 (scale t w)

/-- Whether two numbers agree up to rounding; an infinite number agrees with itself only. -/
def closeTo (a b : α) : Bool :=
  decide (a ≤ b) && decide (b ≤ a) ||
    Scalar.isFinite b &&
      decide (Scalar.abs (a - b) ≤ 1e-8 + 1e-5 * Scalar.abs b)

/-- Whether the matrix agrees with its transpose up to rounding. -/
def isSymmetric (w : Mat α n n) : Bool :=
  (Vector.zipWith (fun r s => (Vector.zipWith closeTo r s).all id) w w.transpose).all id

/-- Whether the symmetric matrix that the lower triangle describes has no negative pivot when it is
eliminated. A pivot of zero stands in a column of zeros. -/
def hasNoNegativePivot : {n : Nat} → Mat α n n → Bool
  | 0, _ => true
  | _ + 1, w =>
    let pivot := w.corner
    let below := w.belowFirst
    if pivot < 0 then false
    else if 0 < pivot then
      hasNoNegativePivot (w.minor - outer below (below.map (· / pivot)))
    else (below.all fun a => decide (a ≤ 0) && decide (0 ≤ a)) && hasNoNegativePivot w.minor

/-- Whether the smallest eigenvalue is not below zero, up to a multiple of rounding of the largest
entry. -/
def isSemidefinite (w : Mat α n n) : Bool :=
  let largest := w.foldl (fun a row => row.foldl (fun a b => Arith.larger a (Scalar.abs b)) a) 1
  hasNoNegativePivot (w.regularize (1e-10 * largest))

end Mat

/-- A quadratic cost over `n` states and `m` controls. -/
structure QuadraticCost (α : Type) (n m : Nat) where
  Q : Mat α n n
  R : Mat α m m
  Qf : Mat α n n
  tf : α
  x0 : Vec α n
  xf : Vec α n
  c : α

namespace QuadraticCost

variable {α : Type} [Scalar α] {n m : Nat}

/-- Whether the final time is free, which a final time of zero stands for. -/
def minimumTime (cost : QuadraticCost α n m) : Bool :=
  decide (cost.tf ≤ 0) && decide (0 ≤ cost.tf)

/-- The cost of one interval. -/
def stage (cost : QuadraticCost α n m) (x : Vec α n) (u : Vec α m) (dt : α) : α :=
  (cost.Q.halfForm (x - cost.xf) + cost.R.halfForm u + cost.c) * dt

/-- The cost of the final state. -/
def terminal (cost : QuadraticCost α n m) (x : Vec α n) : α := cost.Qf.halfForm (x - cost.xf)

/-- The derivatives of the cost of one interval. -/
def stageTerms (cost : QuadraticCost α n m) (x : Vec α n) (u : Vec α m) (dt : α) :
    StageTerms α n m where
  lx := cost.Q.halfFormGradient dt (x - cost.xf)
  lu := cost.R.halfFormGradient dt u
  lxx := cost.Q.halfFormHessian dt
  luu := cost.R.halfFormHessian dt
  lux := Mat.zero m n

/-- The gradient of the cost of the final state. -/
def terminalGradient (cost : QuadraticCost α n m) (x : Vec α n) : Vec α n :=
  cost.Qf.halfFormGradient 1 (x - cost.xf)

/-- The second derivatives of the cost of the final state. -/
def terminalHessian (cost : QuadraticCost α n m) : Mat α n n := cost.Qf.halfFormHessian 1

/-- The cost of a trajectory, given by the states and controls of its intervals and by its final
state. The time step multiplies the sum over the intervals. -/
def total (cost : QuadraticCost α n m) (intervals : List (Vec α n × Vec α m)) (final : Vec α n)
    (dt : α) : α :=
  (intervals.map fun (x, u) =>
    0.5 * Mat.bilinear (x - cost.xf) cost.Q (x - cost.xf) + 0.5 * Mat.bilinear u cost.R u
      + cost.c).sum * dt + cost.terminal final

end QuadraticCost

/-- A final time: a number, or a text, of which only the one for a free final time is valid. -/
inductive FinalTime (α : Type) where
  | time (value : α)
  | named (text : String)

/-- The text that stands for a free final time. -/
def minimumTimeText : String := "min"

/-- One named field of a cost. A constant cost that is not given has a default. -/
inductive CostField (α : Type) where
  | Q (value : Tensor α)
  | R (value : Tensor α)
  | Qf (value : Tensor α)
  | tf (value : FinalTime α)
  | x0 (value : Tensor α)
  | xf (value : Tensor α)
  | c (value : Option α)

/-- The named fields of a cost as far as they are given. -/
structure CostDraft (α : Type) where
  Q : Option (Tensor α) := none
  R : Option (Tensor α) := none
  Qf : Option (Tensor α) := none
  tf : Option (FinalTime α) := none
  x0 : Option (Tensor α) := none
  xf : Option (Tensor α) := none
  c : Option α := none

namespace CostDraft

variable {α : Type}

/-- The draft with one field given anew. -/
def set (d : CostDraft α) : CostField α → CostDraft α
  | .Q v => { d with Q := some v }
  | .R v => { d with R := some v }
  | .Qf v => { d with Qf := some v }
  | .tf v => { d with tf := some v }
  | .x0 v => { d with x0 := some v }
  | .xf v => { d with xf := some v }
  | .c v => { d with c := v }

/-- The draft of the given fields. -/
def ofFields (fields : List (CostField α)) : CostDraft α := fields.foldl set {}

/-- The draft that a cost was built from, as far as it can be told from the cost. -/
def ofCost {n m : Nat} (cost : QuadraticCost α n m) : CostDraft α where
  Q := some (.ofMat cost.Q)
  R := some (.ofMat cost.R)
  Qf := some (.ofMat cost.Qf)
  tf := some (.time cost.tf)
  x0 := some (.ofVec cost.x0)
  xf := some (.ofVec cost.xf)
  c := some cost.c

/-- The names of the required fields that are not given. -/
def missing (d : CostDraft α) : List String :=
  [("Q", d.Q.isSome), ("R", d.R.isSome), ("Qf", d.Qf.isSome), ("tf", d.tf.isSome),
    ("x0", d.x0.isSome), ("xf", d.xf.isSome)].filterMap fun (name, given) =>
      if given then none else some name

variable [Scalar α]

/-- A state weight: a square matrix of `n` rows, symmetric and positive semidefinite. -/
def stateWeight (what : String) (t : Tensor α) (n : Nat) : Except (Error α) (Mat α n n) :=
  match t.toMat? n n with
  | none => .error (.squareShape what n t.shape)
  | some w =>
    if !w.isSymmetric then .error (.notSymmetric what)
    else if !w.isSemidefinite then .error (.notSemidefinite what)
    else .ok w

/-- The initial state: any vector that is not empty. -/
def initialState (t : Tensor α) : Except (Error α) ((n : Nat) × Vec α n) :=
  match t.shape with
  | [n] =>
    match t.toVec? n with
    | some v => if n = 0 then .error (.emptyState t.shape) else .ok ⟨n, v⟩
    | none => .error (.emptyState t.shape)
  | _ => .error (.emptyState t.shape)

/-- The control weight: any square matrix that is not empty, whose lower triangle has a Cholesky
factor. -/
def controlWeight (t : Tensor α) : Except (Error α) ((m : Nat) × Mat α m m) :=
  match t.shape with
  | [m, _] =>
    match t.toMat? m m with
    | some w =>
      if m = 0 then .error (.controlWeightShape t.shape)
      else if (Cholesky.ofLower? w).isNone then .error (.notDefinite "R")
      else .ok ⟨m, w⟩
    | none => .error (.controlWeightShape t.shape)
  | _ => .error (.controlWeightShape t.shape)

/-- The final time as a number, zero if it is free. -/
def finalTime : FinalTime α → Except (Error α) α
  | .time t => if t < 0 then .error (.negative "tf" t) else .ok t
  | .named text => if text = minimumTimeText then .ok 0 else .error (.finalTimeText text)

/-- The constant cost: the given one, else one for a free final time and zero otherwise. -/
def constantCost (tf : FinalTime α) (c : Option α) : Except (Error α) α :=
  match c with
  | some c => if c < 0 then .error (.negative "c" c) else .ok c
  | none =>
    match tf with
    | .time _ => .ok 0
    | .named _ => .ok 1

/-- The cost that the fields describe. The fields are checked in a fixed order, the state weights
last. -/
def build (d : CostDraft α) (builder : Builder) : Except (Error α) (Sized (QuadraticCost α)) :=
  match d.Q, d.R, d.Qf, d.tf, d.x0, d.xf with
  | some q, some r, some qf, some tf, some x0, some xf => do
    let ⟨n, x0⟩ ← initialState x0
    let xf ← match xf.toVec? n with
      | some v => .ok v
      | none => .error (.vectorShape "xf" n xf.shape)
    let ⟨m, r⟩ ← controlWeight r
    let time ← finalTime tf
    let c ← constantCost tf d.c
    let q ← stateWeight "Q" q n
    let qf ← stateWeight "Qf" qf n
    return ⟨n, m, { Q := q, R := r, Qf := qf, tf := time, x0, xf, c }⟩
  | _, _, _, _, _, _ => .error (.missingFields builder d.missing)

end CostDraft

/-- The cost with some of its fields given anew, checked again. -/
def QuadraticCost.replace {α : Type} [Scalar α] {n m : Nat} (cost : QuadraticCost α n m)
    (changes : List (CostField α)) : Except (Error α) (Sized (QuadraticCost α)) :=
  (changes.foldl CostDraft.set (.ofCost cost)).build .cost

end TrajOpt
