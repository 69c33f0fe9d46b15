import TrajOpt.Linear.Vec

/-!
# Dual numbers

A dual number is a value with its derivative in one direction. Running an algorithm at dual numbers
differentiates it exactly, so the derivative of an integration step needs no program of its own.

A number that cannot vary has no slope at all, which is not the same as a slope of zero: the
product of a zero slope with an infinite value is undefined, and a constant must not bring that
about.

## Main definitions

* `Dual` - a value and, unless it is constant, its slope.
* `Dual.jacobian` - the matrix of partial derivatives of a function that runs at dual numbers.
-/

namespace TrajOpt

/-- A value with its derivative in one direction; `none` for a constant. -/
structure Dual (α : Type) where
  value : α
  slope : Option α

namespace Dual

variable {α : Type}

/-- A number that does not vary. -/
def constant (a : α) : Dual α := ⟨a, none⟩

/-- The slope of a sum or difference, where `f` takes both and `g` the second alone. -/
def merge (f : α → α → α) (g : α → α) : Option α → Option α → Option α
  | some s, some t => some (f s t)
  | some s, none => some s
  | none, some t => some (g t)
  | none, none => none

variable [Scalar α]

/-- The value `y` of a function at `a`, whose derivative there turns a slope `s` into `f s`. -/
def chain (a : Dual α) (y : α) (f : α → α) : Dual α := ⟨y, a.slope.map f⟩

instance : Arith (Dual α) where
  add a b := ⟨a.value + b.value, merge (· + ·) id a.slope b.slope⟩
  sub a b := ⟨a.value - b.value, merge (· - ·) (- ·) a.slope b.slope⟩
  mul a b :=
    ⟨a.value * b.value,
      merge (· + ·) id (a.slope.map (· * b.value)) (b.slope.map (a.value * ·))⟩
  div a b :=
    ⟨a.value / b.value,
      merge (· + ·) id (a.slope.map (· / b.value))
        (b.slope.map fun s => -s * a.value * Arith.powInt b.value (-2))⟩
  neg a := ⟨-a.value, a.slope.map (- ·)⟩
  zero := constant 0
  one := constant 1
  lt a b := a.value < b.value
  le a b := a.value ≤ b.value
  decideLT a b := inferInstanceAs (Decidable (a.value < b.value))
  decideLE a b := inferInstanceAs (Decidable (a.value ≤ b.value))

instance : Scalar (Dual α) where
  ofScientific m s e := constant (OfScientific.ofScientific m s e)
  sqrt a :=
    let y := Scalar.sqrt a.value
    a.chain y (· * (0.5 / y))
  sin a := a.chain (Scalar.sin a.value) (· * Scalar.cos a.value)
  cos a := a.chain (Scalar.cos a.value) fun s => -(s * Scalar.sin a.value)
  tan a :=
    let y := Scalar.tan a.value
    a.chain y (· * (1 + y * y))
  exp a :=
    let y := Scalar.exp a.value
    a.chain y (· * y)
  log a := a.chain (Scalar.log a.value) (· / a.value)
  tanh a :=
    let y := Scalar.tanh a.value
    a.chain y fun s => (s + s * y) * (1 - y)
  abs a := a.chain (Scalar.abs a.value) (· * Scalar.sign a.value)
  isFinite a := Scalar.isFinite a.value

/-- The slope, zero for a constant. -/
def slopeOrZero (a : Dual α) : α := a.slope.getD 0

variable {n m : Nat}

/-- A vector that varies along the coordinate `j`. -/
def along (x : Vec α n) (j : Nat) : Vec (Dual α) n :=
  Vector.ofFn fun i => ⟨x.get i, some (if i.val = j then 1 else 0)⟩

/-- A vector that is free to vary and does not do so in the direction at hand. -/
def still (x : Vec α n) : Vec (Dual α) n := x.map fun a => ⟨a, some 0⟩

/-- The matrix of partial derivatives of `f` at `x`, one column for each coordinate. -/
def jacobian (f : Vec (Dual α) n → Vec (Dual α) m) (x : Vec α n) : Mat α m n :=
  let columns : Mat α n m := Vector.ofFn fun j => (f (along x j)).map slopeOrZero
  columns.transpose

end Dual

end TrajOpt
