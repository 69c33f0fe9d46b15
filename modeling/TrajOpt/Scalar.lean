/-!
# Scalars

The numerical algorithms of this library are written once, over a type of scalars. `Arith` names
the four operations and the order, which is all that a schedule or a validity check needs; `Scalar`
adds the elementary functions. Both classes hold operations only and no laws, so that the doubles
are an instance: a theorem that needs a law asks for it, or speaks of a type that has it.

Two ways to take the larger of two numbers appear in the algorithms. They agree on every ordered
field and differ when one of the two is not a number, so both have a name here.
-/

namespace TrajOpt

/-- Numbers with the four operations and a decidable order. -/
class Arith (α : Type) extends Add α, Sub α, Mul α, Div α, Neg α, Zero α, One α, LT α, LE α where
  decideLT : (a b : α) → Decidable (a < b)
  decideLE : (a b : α) → Decidable (a ≤ b)

instance Arith.decidableLT {α : Type} [Arith α] : DecidableLT α := Arith.decideLT

instance Arith.decidableLE {α : Type} [Arith α] : DecidableLE α := Arith.decideLE

/-- Numbers with decimal literals and the elementary functions. -/
class Scalar (α : Type) extends Arith α, OfScientific α where
  sqrt : α → α
  sin : α → α
  cos : α → α
  tan : α → α
  exp : α → α
  log : α → α
  tanh : α → α
  abs : α → α
  /-- Neither infinite nor the result of an undefined operation. -/
  isFinite : α → Bool

instance : Arith Float where
  zero := 0.0
  one := 1.0
  decideLT := inferInstance
  decideLE := inferInstance

instance : Scalar Float where
  sqrt := Float.sqrt
  sin := Float.sin
  cos := Float.cos
  tan := Float.tan
  exp := Float.exp
  log := Float.log
  tanh := Float.tanh
  abs := Float.abs
  isFinite := Float.isFinite

namespace Arith

variable {α : Type} [Arith α]

/-- Whether `a` is comparable to itself, which fails only for the result of an undefined
operation. -/
def isNumber (a : α) : Bool := decide (a ≤ a)

/-- The larger of two numbers; the first one unless the second exceeds it. -/
def larger (a b : α) : α := if a < b then b else a

/-- The smaller of two numbers; the first one unless the second is below it. -/
def smaller (a b : α) : α := if b < a then b else a

/-- The larger of two numbers, and not a number as soon as one of the two is not. -/
def maximum (a b : α) : α :=
  if isNumber a then if isNumber b then larger a b else b else a

/-- The smaller of two numbers, and not a number as soon as one of the two is not. -/
def minimum (a b : α) : α :=
  if isNumber a then if isNumber b then smaller a b else b else a

/-- The power of `a` by a natural number, as a product taken from the left. -/
def powNat (a : α) : Nat → α
  | 0 => 1
  | 1 => a
  | k + 2 => powNat a (k + 1) * a

/-- The power of `a` by an integer; a negative one is the reciprocal of the positive one. -/
def powInt (a : α) : Int → α
  | .ofNat k => powNat a k
  | .negSucc k => 1 / powNat a (k + 1)

end Arith

namespace Scalar

variable {α : Type} [Scalar α]

/-- A natural number as a scalar. -/
def ofNat (k : Nat) : α := OfScientific.ofScientific k false 0

/-- One, minus one or zero; a zero and what is not a number stay as they are. -/
def sign (a : α) : α := if 0 < a then 1 else if a < 0 then -1 else a

end Scalar

end TrajOpt
