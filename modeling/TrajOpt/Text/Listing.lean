/-!
# Listings in messages

Messages show names in quotes, lists in brackets and the shape of an array in parentheses.
-/

namespace TrajOpt

namespace Text

/-- The items separated by a comma and a blank. -/
def commaSeparated (items : List String) : String := String.intercalate ", " items

/-- A list in brackets. -/
def bracketed (items : List String) : String := "[" ++ commaSeparated items ++ "]"

/-- The shape of an array: its lengths in parentheses, with a comma after a single one. -/
def shape (lengths : List Nat) : String :=
  match lengths with
  | [a] => "(" ++ toString a ++ ",)"
  | _ => "(" ++ commaSeparated (lengths.map toString) ++ ")"

/-- The digits of a character code in base sixteen. -/
def hexadecimal (width code : Nat) : String :=
  let digits := Nat.toDigits 16 code
  String.ofList (List.replicate (width - digits.length) '0' ++ digits)

/-- A character inside quotes `q`: the quote, the backslash and control characters are escaped. -/
def quotedChar (q c : Char) : String :=
  if c = q ∨ c = '\\' then String.ofList ['\\', c]
  else if c = '\n' then "\\n"
  else if c = '\r' then "\\r"
  else if c = '\t' then "\\t"
  else if c.toNat < 32 ∨ 127 ≤ c.toNat ∧ c.toNat ≤ 160 ∨ c.toNat = 173 then
    "\\x" ++ hexadecimal 2 c.toNat
  else String.singleton c

/-- A text in single quotes, or in double quotes if it holds single quotes only. -/
def quoted (s : String) : String :=
  let cs := s.toList
  let q := if cs.contains '\'' && !cs.contains '"' then '"' else '\''
  String.singleton q ++ String.join (cs.map (quotedChar q)) ++ String.singleton q

/-- Names with a comma between them and a final conjunction: `a`, `a and b`, `a, b, and c`. -/
def conjunction : List String → String
  | [] => ""
  | [a] => a
  | [a, b] => a ++ " and " ++ b
  | names => commaSeparated names.dropLast ++ ", and " ++ names.getLastD ""

end Text

end TrajOpt
