import TrajOpt.Dynamics.Model

/-!
# Example systems

A damped pendulum with a torque input, whose angle is zero when it hangs down, and a point mass on
a line under an acceleration. The step of the point mass is exact for a constant acceleration.
-/

namespace TrajOpt

namespace Systems

variable {α ν : Type} [Scalar α]

/-- The weight torque of the pendulum: mass, gravity and distance of the centre of mass. -/
def pendulumTorque : α := 1.0 * 9.81 * 0.5

/-- The angular acceleration of the pendulum at an angle, an angular velocity and a torque. -/
def pendulumAcceleration (angle velocity torque : Expr α) : Expr α :=
  .div
    (.sub (.sub torque (.mul (.const pendulumTorque) (.apply .sin angle)))
      (.mul (.const 0.1) velocity))
    (.const 0.25)

/-- The state of a system and its control as expressions. -/
def stateEntry (i : Nat) : Expr α := .entry 0 i

def controlEntry (i : Nat) : Expr α := .entry 1 i

/-- The vector field of the pendulum. -/
def pendulum : UserFunction α where
  name := "pendulum_dynamics"
  parameters := .names ["x", "u"]
  inspectable := true
  traced := true
  failure := none
  body := .returns .vector
    [stateEntry 1, pendulumAcceleration (stateEntry 0) (stateEntry 1) (controlEntry 0)]

/-- The same vector field, written into a buffer. -/
def pendulumInPlace : UserFunction α where
  name := "pendulum_dynamics_inplace"
  parameters := .names ["xdot", "x", "u"]
  inspectable := true
  traced := false
  failure := none
  body := .assigns
    [(0, stateEntry 1),
      (1, pendulumAcceleration (stateEntry 0) (stateEntry 1) (controlEntry 0))]

/-- The vector field of the point mass. -/
def doubleIntegrator : UserFunction α where
  name := "double_integrator_dynamics"
  parameters := .names ["x", "u"]
  inspectable := true
  traced := true
  failure := none
  body := .returns .vector [stateEntry 1, controlEntry 0]

/-- Half the square of the time step, which a constant acceleration is multiplied with. -/
def halfSquare : Expr α := .mul (.const 0.5) (.pow (.number 2) 2)

/-- The step of the point mass. -/
def doubleIntegratorStep : UserFunction α where
  name := "double_integrator_step"
  parameters := .names ["x", "u", "dt"]
  inspectable := true
  traced := true
  failure := none
  body := .returns .vector
    [.add (.add (stateEntry 0) (.mul (.number 2) (stateEntry 1)))
        (.mul halfSquare (controlEntry 0)),
      .add (stateEntry 1) (.mul (.number 2) (controlEntry 0))]

/-- The derivatives of the step of the point mass. -/
def doubleIntegratorJacobians : StepJacobians α where
  state := [[.const 1, .number 2], [.const 0, .const 1]]
  control := [[halfSquare], [.number 2]]

/-- The function of the given name. -/
def ofText? : String → Option (UserFunction α)
  | "pendulum" => some pendulum
  | "pendulum_inplace" => some pendulumInPlace
  | "double_integrator" => some doubleIntegrator
  | "double_integrator_step" => some doubleIntegratorStep
  | _ => none

/-- A model of the pendulum. -/
def pendulumModel (inPlace : Bool) (integration : String) :
    Run (Event α) (Error ν) (Sized (Model α)) :=
  Model.create (if inPlace then pendulumInPlace else pendulum) (.int 2) (.int 1) false integration
    none

/-- A model of the point mass, as a discrete step or integrated with the scheme of order four. -/
def doubleIntegratorModel (discrete analytic : Bool) :
    Run (Event α) (Error ν) (Sized (Model α)) :=
  if discrete then
    Model.create doubleIntegratorStep (.int 2) (.int 1) true "rk4"
      (if analytic then some doubleIntegratorJacobians else none)
  else Model.create doubleIntegrator (.int 2) (.int 1) false "rk4" none

end Systems

end TrajOpt
