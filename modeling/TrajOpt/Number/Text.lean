import TrajOpt.Number.Decimal

/-!
# Texts of numbers

Three layouts are in use: the shortest text that reads back as the same double, with positional
notation for moderate exponents; a fixed number of places; and a mantissa with a fixed number of
places and an exponent. Results are shown in the first layout after rounding to a `Precision`.
-/

namespace TrajOpt

namespace Text

/-- A text of at least `width` characters, filled with `c` from the left. -/
def padLeft (width : Nat) (c : Char) (s : String) : String :=
  String.ofList (List.replicate (width - s.length) c) ++ s

/-- The exponent of a number in scientific notation: a sign and at least two digits. -/
def exponent (e : Int) : String :=
  (if e < 0 then "e-" else "e+") ++ padLeft 2 '0' (toString e.natAbs)

/-- Digits with a point after the first `whole` of them. -/
def withPoint (digits : List Char) (whole : Nat) : String :=
  String.ofList (digits.take whole) ++ "." ++ String.ofList (digits.drop whole)

/-- The sign and the text of an absolute value. -/
def signed (negative : Bool) (s : String) : String := if negative then "-" ++ s else s

end Text

namespace Decimal

/-- The same decimal without trailing zeros; zero itself has exponent zero. -/
def strip (d : Decimal) : Decimal :=
  if d.digits = 0 then ⟨0, 0⟩
  else
    let digits := Nat.toDigits 10 d.digits
    let kept := (digits.reverse.dropWhile (· == '0')).reverse
    let dropped := digits.length - kept.length
    ⟨d.digits / Nat.pow 10 dropped, d.exponent + dropped⟩

/-- The shortest layout: positional for values from `10 ^ (-4)` to below `10 ^ 16`, with at least
one digit after the point, and scientific otherwise, with a point only where digits follow it. -/
def text (d : Decimal) : String :=
  let d := d.strip
  let digits := Nat.toDigits 10 d.digits
  let e := (digits.length : Int) - 1 + d.exponent
  if d.digits = 0 then "0.0"
  else if -4 ≤ e ∧ e < 16 then
    if 0 ≤ d.exponent then
      String.ofList (digits ++ List.replicate d.exponent.toNat '0') ++ ".0"
    else if 0 ≤ e then Text.withPoint digits (e.toNat + 1)
    else "0." ++ String.ofList (List.replicate (-e - 1).toNat '0' ++ digits)
  else if digits.length = 1 then String.ofList digits ++ Text.exponent e
  else Text.withPoint digits 1 ++ Text.exponent e

end Decimal

namespace Double

/-- The text of a double that is not finite, and `f` for one that is. -/
def textWith (x : Double) (f : Binary → String) : String :=
  match x with
  | notANumber => "nan"
  | infinite negative => Text.signed negative "inf"
  | finite negative v => Text.signed negative (f v)

end Double

/-- The shortest text that reads back as the double. -/
def shortestText (x : Float) : String :=
  (Double.ofFloat x).textWith fun v =>
    if v.mantissa = 0 then "0.0" else v.shortest.text

/-- The text with `places` digits after the point. -/
def fixedText (places : Nat) (x : Float) : String :=
  (Double.ofFloat x).textWith fun v =>
    let digits := Nat.toDigits 10 (v.roundTo (-(places : Int)))
    let padded := List.replicate (places + 1 - digits.length) '0' ++ digits
    if places = 0 then String.ofList padded
    else Text.withPoint padded (padded.length - places)

/-- The text with one digit before the point, `places` after it, and an exponent. Rounding may
carry into one digit more, which moves the point. -/
def scientificText (places : Nat) (x : Float) : String :=
  (Double.ofFloat x).textWith fun v =>
    let layout (digits : Nat) (e : Int) : String :=
      let cs := Nat.toDigits 10 digits
      (if places = 0 then String.ofList cs else Text.withPoint cs 1) ++ Text.exponent e
    if v.mantissa = 0 then
      (if places = 0 then "0" else Text.withPoint (List.replicate (places + 1) '0') 1) ++ "e+00"
    else
      let e := v.magnitude
      let digits := v.roundTo (e - places)
      if digits = Nat.pow 10 (places + 1) then layout (Nat.pow 10 places) (e + 1)
      else layout digits e

/-- How far a result is shown: at most `significant` digits and none beyond `places` after the
point. -/
structure Precision where
  significant : Nat
  places : Nat

namespace Precision

/-- Nine significant digits and ten places. -/
def fine : Precision := ⟨9, 10⟩

/-- Five significant digits and six places. -/
def coarse : Precision := ⟨5, 6⟩

/-- The exponent of the last digit shown of a value with the given magnitude. -/
def lastDigit (p : Precision) (magnitude : Int) : Int :=
  max (magnitude - p.significant + 1) (-(p.places : Int))

/-- The value rounded to the precision. -/
def round (p : Precision) (v : Binary) : Decimal :=
  if v.mantissa = 0 then ⟨0, 0⟩
  else
    let q := p.lastDigit v.magnitude
    ⟨v.roundTo q, q⟩

/-- The text of a result. A value that rounds to zero has no sign. -/
def text (p : Precision) (x : Float) : String :=
  match Double.ofFloat x with
  | .notANumber => "nan"
  | .infinite negative => Text.signed negative "inf"
  | .finite negative v =>
    let d := p.round v
    Text.signed (negative && d.digits != 0) d.text

end Precision

end TrajOpt
