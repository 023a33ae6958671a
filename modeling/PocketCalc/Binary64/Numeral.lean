import PocketCalc.Binary64.Basic

/-!
# Numerals

A numeral is what is read as a double: an optional sign, then `inf`, `infinity` or `nan` in any
case, or digits with an optional point (a digit at least on one side of it) and an optional
exponent.  A decimal numeral stands for the double nearest to the number that it denotes.
-/

namespace PocketCalc.Binary64.Numeral

/-- The natural number that digits denote. -/
def value (digits : List Char) : Nat := Nat.ofDigitChars 10 digits 0

/-- The integer that digits denote, if there is one at least and nothing else. -/
def integer? (negative : Bool) (digits : List Char) : Option Int :=
  if digits.isEmpty || !digits.all Char.isDigit then none
  else some (if negative then -(value digits : Int) else value digits)

/-- The exponent that stands after the digits; zero if nothing does. -/
def exponent? : List Char → Option Int
  | [] => some 0
  | c :: rest =>
    if c = 'e' ∨ c = 'E' then
      match rest with
      | '-' :: digits => integer? true digits
      | '+' :: digits => integer? false digits
      | digits => integer? false digits
    else none

/-- The digits after the point, if there is a point, and what follows. -/
def fraction : List Char → List Char × List Char
  | '.' :: rest => (rest.takeWhile Char.isDigit, rest.dropWhile Char.isDigit)
  | rest => ([], rest)

/-- The index of the double that a decimal numeral without a sign stands for. -/
def decimal? (text : List Char) : Option Nat :=
  let whole := text.takeWhile Char.isDigit
  let after := fraction (text.dropWhile Char.isDigit)
  if whole.isEmpty && after.1.isEmpty then none
  else (exponent? after.2).map fun e =>
    ofScientific (value (whole ++ after.1)) (e - after.1.length)

/-- The double that a numeral with its sign taken off stands for. -/
def unsigned? (negative : Bool) (text : List Char) : Option Float :=
  let word := text.map Char.toLower
  if word = ['i', 'n', 'f'] ∨ word = ['i', 'n', 'f', 'i', 'n', 'i', 't', 'y'] then
    some (ofIndex negative infIndex)
  else if word = ['n', 'a', 'n'] then some nan
  else (decimal? text).map (ofIndex negative)

/-- The double that a numeral stands for; nothing if the text is no numeral. -/
def read? : List Char → Option Float
  | '-' :: text => unsigned? true text
  | '+' :: text => unsigned? false text
  | text => unsigned? false text

end PocketCalc.Binary64.Numeral
