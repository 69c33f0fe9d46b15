import TrajOpt.Scalar
import TrajOpt.Number.Text

/-!
# Numbers as they were given

A setting may be given as an integer, as a double or as a truth value. A `Numeral` keeps that kind,
because it shows when the number is printed, and computes with it: the sum, difference and product
of two integers are integers, everything else is a double. Truth values count as zero and one.
-/

namespace TrajOpt

/-- A number together with the kind in which it was given. -/
inductive Numeral where
  | int (value : Int)
  | double (value : Float)
  | truth (value : Bool)

namespace Numeral

/-- The value as a double. -/
def toFloat : Numeral → Float
  | int a => Float.ofInt a
  | double a => a
  | truth a => if a then 1.0 else 0.0

/-- The value as an integer, unless it was given as a double. -/
def int? : Numeral → Option Int
  | int a => some a
  | double _ => none
  | truth a => some (if a then 1 else 0)

/-- Whether the number counts as true: anything but zero does. -/
def isTrue : Numeral → Bool
  | int a => a != 0
  | double a => !(a == 0.0)
  | truth a => a

/-- The text of the number in the kind in which it was given. -/
def text : Numeral → String
  | int a => toString a
  | double a => shortestText a
  | truth a => if a then "True" else "False"

/-- An operation that stays within the integers and one for all other cases. -/
def combine (f : Int → Int → Int) (g : Float → Float → Float) (a b : Numeral) : Numeral :=
  match a.int?, b.int? with
  | some i, some j => int (f i j)
  | _, _ => double (g a.toFloat b.toFloat)

/-- Whether the first number is below the second. -/
def below (a b : Numeral) : Bool :=
  match a.int?, b.int? with
  | some i, some j => decide (i < j)
  | _, _ => decide (a.toFloat < b.toFloat)

/-- Whether the first number is at most the second. -/
def atMost (a b : Numeral) : Bool :=
  match a.int?, b.int? with
  | some i, some j => decide (i ≤ j)
  | _, _ => decide (a.toFloat ≤ b.toFloat)

instance : Arith Numeral where
  add := combine (· + ·) (· + ·)
  sub := combine (· - ·) (· - ·)
  mul := combine (· * ·) (· * ·)
  div a b := double (a.toFloat / b.toFloat)
  neg
    | int a => int (-a)
    | double a => double (-a)
    | truth a => int (if a then -1 else 0)
  zero := double 0.0
  one := double 1.0
  lt a b := a.below b = true
  le a b := a.atMost b = true
  decideLT _ _ := inferInstanceAs (Decidable (_ = true))
  decideLE _ _ := inferInstanceAs (Decidable (_ = true))

instance : OfScientific Numeral where
  ofScientific m s e := double (OfScientific.ofScientific m s e)

/-- Why a double has no integer part. -/
inductive NoInteger where
  | infinite
  | notANumber
  deriving DecidableEq

/-- The integer part of a double, cut off towards zero. -/
def integerPart (x : Float) : Except NoInteger Int :=
  match Double.ofFloat x with
  | .notANumber => .error .notANumber
  | .infinite _ => .error .infinite
  | .finite negative v =>
    let a : Int := (v.quotient.1 / v.quotient.2 : Nat)
    .ok (if negative then -a else a)

/-- The integer part of a number, cut off towards zero. -/
def truncate : Numeral → Except NoInteger Int
  | double x => integerPart x
  | int a => .ok a
  | truth a => .ok (if a then 1 else 0)

/-- The integer nearest to a double; a half goes to the even neighbour. -/
def nearestInteger (x : Float) : Except NoInteger Int :=
  match Double.ofFloat x with
  | .notANumber => .error .notANumber
  | .infinite _ => .error .infinite
  | .finite negative v =>
    let a : Int := v.roundTo 0
    .ok (if negative then -a else a)

end Numeral

end TrajOpt
