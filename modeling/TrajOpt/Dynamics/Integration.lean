import TrajOpt.Linear.Vec

/-!
# Integration schemes

A vector field `dx/dt = f (x, u)` is turned into a discrete step over an interval of length `dt`
with the control held constant. The schemes are the explicit ones of orders one to four.

## Main definitions

* `Scheme.step` - one step of a scheme.
* `Scheme.trajectory` - the states after each of several steps.
-/

namespace TrajOpt

/-- The explicit integration schemes. -/
inductive Scheme where
  | euler
  | midpoint
  | heun
  | rk3
  | rk4
  deriving DecidableEq

namespace Scheme

/-- All schemes, in the order of their names. -/
def all : List Scheme := [euler, heun, midpoint, rk3, rk4]

/-- The name of a scheme. -/
def text : Scheme → String
  | euler => "euler"
  | midpoint => "midpoint"
  | heun => "heun"
  | rk3 => "rk3"
  | rk4 => "rk4"

/-- The scheme of the given name. -/
def ofText? (name : String) : Option Scheme := all.find? fun s => s.text == name

variable {α : Type} [Scalar α] {n m : Nat}

/-- One step of a scheme from the state `x` under the control `u`. -/
def step (s : Scheme) (f : Vec α n → Vec α m → Vec α n) (x : Vec α n) (u : Vec α m) (dt : α) :
    Vec α n :=
  match s with
  | euler => x + Vec.scale dt (f x u)
  | midpoint =>
    let k1 := f x u
    let k2 := f (x + Vec.scale (0.5 * dt) k1) u
    x + Vec.scale dt k2
  | heun =>
    let k1 := f x u
    let k2 := f (x + Vec.scale dt k1) u
    x + Vec.scale (0.5 * dt) (k1 + k2)
  | rk3 =>
    let k1 := f x u
    let k2 := f (x + Vec.scale (0.5 * dt) k1) u
    let k3 := f (x - Vec.scale dt k1 + Vec.scale (2.0 * dt) k2) u
    x + Vec.scale (dt / 6.0) (k1 + Vec.scale 4.0 k2 + k3)
  | rk4 =>
    let k1 := f x u
    let k2 := f (x + Vec.scale (0.5 * dt) k1) u
    let k3 := f (x + Vec.scale (0.5 * dt) k2) u
    let k4 := f (x + Vec.scale dt k3) u
    x + Vec.scale (dt / 6.0) (k1 + Vec.scale 2.0 k2 + Vec.scale 2.0 k3 + k4)

/-- The states after one, two and up to `count` steps under a constant control. -/
def trajectory (s : Scheme) (f : Vec α n → Vec α m → Vec α n) (u : Vec α m) (dt : α) :
    Nat → Vec α n → List (Vec α n)
  | 0, _ => []
  | count + 1, x =>
    let next := s.step f x u dt
    next :: s.trajectory f u dt count next

end Scheme

end TrajOpt
