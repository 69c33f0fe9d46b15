/-!
# Decimal numbers from doubles

The exact value of a finite double is `m · 2 ^ e` for integers `m` and `e`, so every question about
its decimal digits is one about natural numbers. This module answers two: which multiple of a power
of ten is nearest, a half going to the even neighbour, and which decimal with the fewest digits
reads back as the same double.

## Main definitions

* `Binary.ofFloat` - a double taken apart.
* `Binary.roundTo` - the nearest multiple of a power of ten.
* `Binary.shortest` - the shortest decimal that reads back.
-/

namespace TrajOpt

/-- The quotient nearest to `a / b`; a half goes to the even neighbour. -/
def roundDiv (a b : Nat) : Nat :=
  let q := a / b
  let twice := 2 * (a % b)
  if twice < b then q
  else if b < twice then q + 1
  else if q % 2 = 0 then q else q + 1

/-- The number of decimal digits of a natural number, one for zero. -/
def digitCount (a : Nat) : Nat := (Nat.toDigits 10 a).length

/-- The decimal `digits · 10 ^ exponent`. -/
structure Decimal where
  digits : Nat
  exponent : Int
  deriving DecidableEq

/-- The absolute value `mantissa · 2 ^ exponent` of a finite double. -/
structure Binary where
  mantissa : Nat
  exponent : Int

/-- A double taken apart. -/
inductive Double where
  | notANumber
  | infinite (negative : Bool)
  | finite (negative : Bool) (value : Binary)

namespace Double

/-- Sign, exponent and fraction as the bits of a double hold them. A zero exponent field has no
leading one and counts like a one. -/
def ofFloat (x : Float) : Double :=
  let bits := x.toBits.toNat
  let negative := bits / Nat.pow 2 63 % 2 == 1
  let exponent : Nat := bits / Nat.pow 2 52 % Nat.pow 2 11
  let fraction : Nat := bits % Nat.pow 2 52
  if exponent = 2047 then
    if fraction = 0 then infinite negative else notANumber
  else if exponent = 0 then finite negative ⟨fraction, -1074⟩
  else finite negative ⟨fraction + Nat.pow 2 52, (exponent : Int) - 1075⟩

end Double

namespace Binary

/-- The value as a quotient of natural numbers. -/
def quotient (v : Binary) : Nat × Nat :=
  (v.mantissa * Nat.pow 2 v.exponent.toNat, Nat.pow 2 (-v.exponent).toNat)

/-- The value in units of `10 ^ q`, as a quotient of natural numbers. -/
def inUnitsOf (v : Binary) (q : Int) : Nat × Nat :=
  (v.quotient.1 * Nat.pow 10 (-q).toNat, v.quotient.2 * Nat.pow 10 q.toNat)

/-- The nearest integer to the value in units of `10 ^ q`. -/
def roundTo (v : Binary) (q : Int) : Nat := roundDiv (v.inUnitsOf q).1 (v.inUnitsOf q).2

/-- The exponent of the largest power of ten that does not exceed a positive value. Every positive
double is above `10 ^ (-324)`, so the value times `10 ^ 324` has as many integer digits as that
power has beyond its exponent. -/
def magnitude (v : Binary) : Int :=
  let (a, b) := v.inUnitsOf (-324)
  (digitCount (a / b) : Int) - 325

/-- Whether `d · 10 ^ q` reads back as the double: it lies between the midpoints to the
neighbouring doubles, or on one of them when the mantissa is even. The lower neighbour of a power
of two is at half the distance. -/
def readsBack (v : Binary) (d : Nat) (q : Int) : Bool :=
  let (a, b) := (⟨d, 0⟩ : Binary).inUnitsOf (-q)
  let quarter : Binary := ⟨1, v.exponent - 2⟩
  let (s, t) := quarter.quotient
  let value := a * t
  let unit := s * b
  let closer := v.mantissa = Nat.pow 2 52 ∧ -1074 < v.exponent
  let low := (4 * v.mantissa - if closer then 1 else 2) * unit
  let high := (4 * v.mantissa + 2) * unit
  if v.mantissa % 2 = 0 then low ≤ value && value ≤ high else low < value && value < high

/-- The decimal of `k` digits nearest to the value among its two neighbours that read back. -/
def nearestOf (v : Binary) (k : Nat) : Option Decimal :=
  let q := v.magnitude - (k : Int) + 1
  let (a, b) := v.inUnitsOf q
  let low := a / b
  let near := roundDiv a b
  let far := if near = low then low + 1 else low
  if v.readsBack near q then some ⟨near, q⟩
  else if v.readsBack far q then some ⟨far, q⟩
  else none

/-- The decimal with the fewest digits that reads back as the double. Seventeen digits always
do. -/
def shortest (v : Binary) : Decimal :=
  let found := (List.range' 1 16).findSome? v.nearestOf
  found.getD ⟨v.roundTo (v.magnitude - 16), v.magnitude - 16⟩

end Binary

end TrajOpt
