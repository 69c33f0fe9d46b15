import TrajOpt.Dynamics.Integration
import TrajOpt.Function.Adapted

/-!
# Dynamics models

A model gives the state after one interval and the derivatives of that state. It is built from a
vector field, which an integration scheme turns into a step, or from a discrete step. The
derivatives are the ones supplied with a discrete step, else the exact ones of a traceable function,
else central differences of the whole step.

## Main definitions

* `Model` - a model with `n` states and `m` controls.
* `Model.create` - builds a model after checking what it is given.
* `Model.step`, `Model.jacobians` - the step and its derivatives.
-/

namespace TrajOpt

/-- The derivatives of a step as expressions over the state, the control and the time step. -/
structure StepJacobians (α : Type) where
  state : List (List (Expr α))
  control : List (List (Expr α))

namespace StepJacobians

variable {α : Type} [Scalar α]

/-- A matrix of expressions as a matrix of their values. -/
def evaluate (r c : Nat) (rows : List (List (Expr α))) (args : Args α) : Mat α r c :=
  Vector.ofFn fun i => Vector.ofFn fun j =>
    match (rows[i.val]?).bind (·[j.val]?) with
    | some e => e.eval id args
    | none => 0

end StepJacobians

/-- A model with `n` states and `m` controls. Without an integration scheme the dynamics are a
discrete step. -/
structure Model (α : Type) (n m : Nat) where
  dynamics : Adapted α
  size_dynamics : dynamics.size = n
  integration : Option Scheme
  jacobian : Option (StepJacobians α)

namespace Model

variable {α ν : Type} {n m : Nat}

/-- Whether the model was given as a discrete step. -/
def discrete (model : Model α n m) : Bool := model.integration.isNone

/-- The arguments of the dynamics. -/
def arguments {β : Type} (model : Model α n m) (x : Vec β n) (u : Vec β m) (dt : β) : Args β :=
  let stage := [.vector x.toList, .vector u.toList]
  if model.discrete then stage ++ [.number dt] else stage

/-- The step over numbers into which `embed` takes the constants of the dynamics. -/
def stepOver {β : Type} [Scalar β] (model : Model α n m) (embed : α → β) (x : Vec β n) (u : Vec β m)
    (dt : β) : Vec β n :=
  let f (x : Vec β n) (u : Vec β m) : Vec β n :=
    (model.dynamics.value embed (model.arguments x u dt)).cast model.size_dynamics
  match model.integration with
  | none => f x u
  | some scheme => scheme.step f x u dt

/-- What every call of the dynamics raises. -/
def fault? (model : Model α n m) : Option Fault :=
  let stage := [some n, some m]
  model.dynamics.fault? (if model.discrete then stage ++ [none] else stage)

variable [Scalar α]

/-- The state after one interval. -/
def step (model : Model α n m) (x : Vec α n) (u : Vec α m) (dt : α) : Vec α n :=
  model.stepOver id x u dt

/-- The derivatives of the step with respect to the state and the control. -/
def jacobians (model : Model α n m) (x : Vec α n) (u : Vec α m) (dt : α) :
    Mat α n n × Mat α n m :=
  match model.jacobian with
  | some given =>
    let args : Args α := [.vector x.toList, .vector u.toList, .number dt]
    (StepJacobians.evaluate n n given.state args, StepJacobians.evaluate n m given.control args)
  | none =>
    if model.dynamics.traceable then
      let lifted := Dual.constant dt
      (Dual.jacobian (fun x => model.stepOver Dual.constant x (Dual.still u) lifted) x,
        Dual.jacobian (fun u => model.stepOver Dual.constant (Dual.still x) u lifted) u)
    else
      (centralDifference differenceStep (fun x => model.step x u dt) x,
        centralDifference differenceStep (fun u => model.step x u dt) u)

/-- A dimension as a positive natural number. -/
def dimension (what : String) (value : Numeral) : Except (Error ν) Nat :=
  match value.truncate with
  | .error reason => .error (.noInteger reason)
  | .ok k =>
    if value.toFloat == Float.ofInt k && 1 ≤ k then .ok k.toNat else .error (.dimension what value)

/-- Builds a model of `n` states and `m` controls. The dynamics are tried out at zero, a discrete
step with a tenth as its time step. -/
def create (f : UserFunction α) (n m : Numeral) (discrete : Bool) (integration : String)
    (jacobian : Option (StepJacobians α)) :
    Run (Event α) (Error ν) (Sized (Model α)) := do
  let n ← Run.ofExcept (dimension "n" n)
  let m ← Run.ofExcept (dimension "m" m)
  if jacobian.isSome && !discrete then Run.fail .jacobiansOfContinuous
  let stage : Args α := [.vector (List.replicate n 0), .vector (List.replicate m 0)]
  let scheme ←
    if discrete then pure none
    else
      match Scheme.ofText? integration with
      | some scheme => pure (some scheme)
      | none => Run.fail (.unknownScheme integration (Scheme.all.map Scheme.text))
  let probe := if discrete then stage ++ [.number 0.1] else stage
  let dynamics ← adapt f probe "dynamics" (some (n : Int))
  if h : dynamics.size = n then
    return ⟨n, m, { dynamics, size_dynamics := h, integration := scheme, jacobian }⟩
  else Run.fail (.outputSize "dynamics" dynamics.size n)

/-- One line that describes the model. -/
def text (model : Model α n m) : String :=
  let kind := match model.integration with
    | none => "discrete"
    | some scheme => "continuous, " ++ scheme.text
  let form := model.dynamics.form.text
  s!"Model(n={n}, m={m}, {kind}, {form})"

end Model

end TrajOpt
