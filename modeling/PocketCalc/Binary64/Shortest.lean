import PocketCalc.Binary64.Basic

/-!
# The shortest decimal of a double

Many decimals read as a given double.  `shortest` gives the one on the coarsest grid
`{ m * 10 ^ e }` that has such a decimal at all, and of those on it the nearest to the double, the
larger one when two are equally near.  If a point of a grid reads as the double, so does one of
the double's two neighbours on that grid, which are the only points that are tried.
-/

namespace PocketCalc.Binary64

/-- The numerator of the spacing of the grid `{ m * 10 ^ e }`, in units. -/
def gridNum (e : Int) : Nat := tenPow e.toNat <<< maxPrecision

/-- The denominator of the spacing of the grid `{ m * 10 ^ e }`, in units. -/
def gridDen (e : Int) : Nat := tenPow (-e).toNat

/-- The number `m` for which `m * 10 ^ e` reads as the double with index `n` and is nearest to it,
if the grid has one. -/
def onGrid? (n : Nat) (e : Int) : Option Nat :=
  let x := units n * gridDen e
  let low := x / gridNum e
  let high := low + 1
  let nearLow := decide (2 * x < (low + high) * gridNum e)
  match decide (ofScientific low e = n), decide (ofScientific high e = n) with
  | true, true => some (if nearLow then low else high)
  | true, false => some low
  | false, true => some high
  | false, false => none

/-- The number `m * 10 ^ e` as a decimal without superfluous places. -/
def gridPoint (m : Nat) (e : Int) : Decimal := ⟨m * tenPow e.toNat, (-e).toNat⟩

/-- The double with index `n` written out. -/
def exact (n : Nat) : Decimal :=
  ⟨(units n * tenPow maxPrecision) >>> maxPrecision, maxPrecision⟩

/-- The exponents of the grids to try, from the coarsest that could have a point. -/
def gridExponents (n : Nat) : List Int :=
  let top := (Nat.toDigits 10 (units n >>> maxPrecision)).length
  (List.range (top + maxPrecision)).map fun i : Nat => (top : Int) - i

/-- The shortest decimal that reads as the double with index `n`. -/
def shortest (n : Nat) : Decimal :=
  ((gridExponents n).findSome? fun e => (onGrid? n e).map (gridPoint · e)).getD (exact n)

/-- The decimal that a finite double is written as, with its sign. -/
def toDecimal (v : Float) : Decimal :=
  if isNegative v then (shortest (index v)).neg else shortest (index v)

/-- The text of a double: its shortest decimal with its sign, also that of a zero; an infinity or
a NaN by name, the latter without a sign. -/
def text (v : Float) : List Char :=
  if infIndex < index v then ['N', 'a', 'N']
  else
    let sign := if isNegative v then ['-'] else []
    sign ++ if index v = infIndex then ['i', 'n', 'f'] else (shortest (index v)).text

end PocketCalc.Binary64
