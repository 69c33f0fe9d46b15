import TrajOpt.Descent.Riccati
import TrajOpt.Event
import TrajOpt.Options
import TrajOpt.Run

/-!
# Regularization of the backward pass

The weight that is added to the control Hessian grows and falls along a geometric schedule: each
further step in the same direction multiplies the weight by one factor more. A weight below the
smallest one is dropped to zero on the way down and raised to it on the way up.

## Main definitions

* `Regularization`, `Regularization.increase`, `Regularization.decrease` - the schedule.
* `regularizedBackwardPass` - the backward pass with as much regularization as it takes.
-/

namespace TrajOpt

/-- The weight and the factor by which it was last multiplied. -/
structure Regularization (α : Type) where
  weight : α
  change : α

namespace Regularization

variable {α : Type} [Arith α]

/-- The schedule at its start. -/
def start (o : Options α) : Regularization α := ⟨o.regInitial, 0⟩

/-- The schedule after one increase. -/
def increase (o : Options α) (r : Regularization α) : Regularization α :=
  let change := Arith.larger (r.change * o.regFactor) o.regFactor
  ⟨Arith.larger (r.weight * change) o.regMin, change⟩

/-- The schedule after one decrease. -/
def decrease (o : Options α) (r : Regularization α) : Regularization α :=
  let change := Arith.smaller (r.change / o.regFactor) (1 / o.regFactor)
  let weight := r.weight * change
  ⟨if weight < o.regMin then 0 else weight, change⟩

/-- Whether the weight is above the largest one. -/
def exhausted (o : Options α) (r : Regularization α) : Bool := decide (o.regMax < r.weight)

/-- One increase, reported. -/
def raise {η : Type} (o : Options α) (r : Regularization α) :
    Run (Event α) η (Regularization α) := do
  let r := r.increase o
  Run.report (.regularizationRaised r.weight)
  return r

end Regularization

/-- How many backward passes are followed before a search for the regularization counts as
endless. -/
def passLimit : Nat := Nat.pow 10 9

section Pass

variable {α ν : Type} [Scalar α] {n m : Nat}

/-- Runs the backward pass, raising the regularization until it succeeds or the weight is above the
largest one. Of a pass that fails only the gains are kept. The first argument bounds the number of
passes. -/
def searchRegularization (o : Options α) (e : Expansion α n m) :
    Nat → Regularization α →
      Run (Event α) (Error ν)
        (Regularization α × Except (List (Gain α n m)) (Riccati.Sweep α n m))
  | 0, _ => Run.fail .endless
  | passes + 1, r =>
    match Riccati.backwardPass e r.weight with
    | some s => pure (r, .ok s)
    | none => do
      let raised ← r.raise o
      if raised.exhausted o then
        return (raised, .error (Riccati.backwardAttempt e r.weight).gains)
      else searchRegularization o e passes raised

/-- The backward pass with as much regularization as it takes, and the gains of the last one if that
is more than the largest one. -/
def regularizedBackwardPass (o : Options α) (e : Expansion α n m) (r : Regularization α) :
    Run (Event α) (Error ν)
      (Regularization α × Except (List (Gain α n m)) (Riccati.Sweep α n m)) :=
  searchRegularization o e passLimit r

end Pass

end TrajOpt
