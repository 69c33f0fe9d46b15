import TrajOpt.Linear.Vec

/-!
# Paths

A path is what a discrete system goes through: knots, each a state with the control held from there
to the next state, and the state in which the path ends. A path of `N` knots thus has `N + 1` states
and `N` controls, and the two never get out of step.

## Main definitions

* `Path.rollout` - the path of given controls from an initial state.
* `Path.closedLoop` - the path under controls that react to the deviation from another path.
* `Path.slacks` - by how much the states of a path miss what the dynamics make of them.
-/

namespace TrajOpt

/-- A state and the control held from there to the next state. -/
structure Knot (α : Type) (n m : Nat) where
  state : Vec α n
  control : Vec α m

/-- Knots and the state in which the path ends. -/
structure Path (α : Type) (n m : Nat) where
  knots : List (Knot α n m)
  final : Vec α n

/-- The affine reaction of a control: a change `d` of its own, and `K` times the deviation of the
state. -/
structure Gain (α : Type) (n m : Nat) where
  K : Mat α m n
  d : Vec α m

namespace Path

variable {α : Type} {n m k : Nat}

/-- The states of a path, the final one included. -/
def states (path : Path α n m) : List (Vec α n) := path.knots.map Knot.state ++ [path.final]

/-- The controls of a path. -/
def controls (path : Path α n m) : List (Vec α m) := path.knots.map Knot.control

/-- The state in which the path begins. -/
def first (path : Path α n m) : Vec α n := (path.knots.head?.map Knot.state).getD path.final

/-- The path that begins with another knot. -/
def cons (knot : Knot α n m) (path : Path α n m) : Path α n m := ⟨knot :: path.knots, path.final⟩

/-- The path of the given controls from the state `x`. -/
def rollout (step : Vec α n → Vec α m → Vec α n) (x : Vec α n) : List (Vec α m) → Path α n m
  | [] => ⟨[], x⟩
  | u :: us => cons ⟨x, u⟩ (rollout step (step x u) us)

/-- The path of the given states and controls, if there is one state more than controls. -/
def ofLists? : List (Vec α n) → List (Vec α m) → Option (Path α n m)
  | [x], [] => some ⟨[], x⟩
  | x :: xs, u :: us => (ofLists? xs us).map (cons ⟨x, u⟩)
  | _, _ => none

/-- The path with another initial state. -/
def setFirst (x : Vec α n) (path : Path α n m) : Path α n m :=
  match path.knots with
  | [] => ⟨[], x⟩
  | knot :: rest => ⟨⟨x, knot.control⟩ :: rest, path.final⟩

/-- By how much each state after the first differs from what the dynamics make of the knot before
it. -/
def slacks [Sub α] (step : Vec α n → Vec α m → Vec α n) (path : Path α n m) : List (Vec α n) :=
  List.zipWith (fun knot next => next - step knot.state knot.control) path.knots path.states.tail

section ClosedLoop

variable [Arith α]

/-- The control of a knot when the state is `x` instead, for the step size `size`. -/
def reaction (size : α) (x : Vec α n) (knot : Knot α n m) (gain : Gain α n m) : Vec α m :=
  knot.control + Vec.scale size gain.d + gain.K.mulVec (x - knot.state)

/-- The path from `x` along the given knots, where each control reacts to the deviation from its
knot. -/
def closedLoopFrom (step : Vec α n → Vec α m → Vec α n) (size : α) (x : Vec α n) :
    List (Knot α n m × Gain α n m) → Path α n m
  | [] => ⟨[], x⟩
  | (knot, gain) :: rest =>
    let u := reaction size x knot gain
    cons ⟨x, u⟩ (closedLoopFrom step size (step x u) rest)

/-- The path under controls that react to the deviation from `path`, from the same initial state. -/
def closedLoop (step : Vec α n → Vec α m → Vec α n) (size : α) (path : Path α n m)
    (gains : List (Gain α n m)) : Path α n m :=
  closedLoopFrom step size path.first (path.knots.zip gains)

end ClosedLoop

/-- Whether all states of the path are finite. -/
def isFinite [Scalar α] (path : Path α n m) : Bool :=
  path.states.all fun x => x.all Scalar.isFinite

end Path

end TrajOpt
