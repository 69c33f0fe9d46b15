import TrajOpt.Number.Numeral

/-!
# Reading numbers

A text of digits with an optional sign denotes an integer. With a point or an exponent it denotes
the double that is nearest to its decimal value.
-/

namespace TrajOpt

namespace Numeral

/-- The natural number that a text of decimal digits denotes. -/
def naturalOf (digits : List Char) : Nat := digits.foldl (fun k c => 10 * k + (c.toNat - 48)) 0

/-- The integer that digits with an optional sign denote. -/
def integerOf : List Char → Int
  | '-' :: digits => -(naturalOf digits : Int)
  | '+' :: digits => naturalOf digits
  | digits => naturalOf digits

/-- Whether a character begins an exponent. -/
def isExponentMark (c : Char) : Bool := c == 'e' || c == 'E'

/-- The double of a decimal text: digits before and after a point, and an exponent. -/
def doubleOf (cs : List Char) : Float :=
  let mantissa := cs.takeWhile fun c => !isExponentMark c
  let whole := mantissa.takeWhile (· != '.')
  let fraction := mantissa.drop (whole.length + 1)
  let exponent := integerOf (cs.drop (mantissa.length + 1)) - fraction.length
  let digits := naturalOf (whole.filter (· != '-') ++ fraction)
  let value := Float.ofScientific digits (exponent < 0) exponent.natAbs
  if cs.head? == some '-' then -value else value

/-- The number that a text denotes. -/
def ofChars (cs : List Char) : Numeral :=
  if cs.any fun c => c == '.' || isExponentMark c then double (doubleOf cs) else int (integerOf cs)

end Numeral

end TrajOpt
