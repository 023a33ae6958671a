import PocketCalc.Decimal.Basic

/-!
# Doubles by index

The finite non-negative doubles in increasing order are numbered `0, 1, 2, …`: the *index* of a
double is its bit pattern without the sign bit.  Every double is a whole number of *units* of
`2 ^ -1074`, so that a quotient of natural numbers can be rounded to the nearest double in exact
arithmetic (`nearest`).
-/

namespace PocketCalc.Binary64

/-- The number `2 ^ 52`: the number of doubles from one power of two to the next, and the leading
bit of a significand, which the bit pattern leaves out. -/
def leadingBit : Nat := 0x10000000000000

/-- The index of infinity, which follows that of the largest finite double. -/
def infIndex : Nat := 0x7FF0000000000000

/-- The bit that is set in the bit pattern of a negative double. -/
def signBit : Nat := 0x8000000000000000

/-- The number of places of the smallest double above zero, in binary as well as in decimal. -/
def maxPrecision : Nat := 1074

/-- The double with index `n` in units of `2 ^ -1074`. -/
def units (n : Nat) : Nat :=
  if n < leadingBit then n else (leadingBit + n % leadingBit) <<< (n / leadingBit - 1)

/-- The index of the largest double that is at most `x` units. -/
def floorIndex (x : Nat) : Nat :=
  let shift := x.log2 - 52
  shift * leadingBit + x >>> shift

/-- The index of the double nearest to `num / den` units.  Of two equally near it is the even
index, and beyond the largest finite double, were the exponent range to go on, it is that of
infinity. -/
def nearest (num den : Nat) : Nat :=
  let below := floorIndex (num / den)
  let middle := (units below + units (below + 1)) * den
  let index :=
    if 2 * num < middle then below
    else if middle < 2 * num then below + 1
    else below + below % 2
  min index infIndex

/-- The index of the double nearest to `coeff * 10 ^ exponent`.  Numbers outside the range of
doubles are told apart by their number of digits, whatever the size of the exponent. -/
def ofScientific (coeff : Nat) (exponent : Int) : Nat :=
  let top : Int := (Nat.toDigits 10 coeff).length + exponent
  if coeff = 0 ∨ top ≤ -324 then 0
  else if 310 ≤ top then infIndex
  else nearest ((coeff * tenPow exponent.toNat) <<< maxPrecision) (tenPow (-exponent).toNat)

/-! ### Bit patterns -/

/-- The bit pattern of `v` without its sign. -/
def index (v : Float) : Nat := v.toBits.toNat % signBit

/-- The sign bit of `v` is set. -/
def isNegative (v : Float) : Bool := decide (signBit ≤ v.toBits.toNat)

/-- `v` is neither infinite nor a NaN. -/
def isFinite (v : Float) : Bool := decide (index v < infIndex)

/-- The double with the given sign and index. -/
def ofIndex (negative : Bool) (n : Nat) : Float :=
  Float.ofBits (UInt64.ofNat (if negative then signBit + n else n))

/-- The double that is not a number. -/
def nan : Float := Float.ofBits 0x7FF8000000000000

end PocketCalc.Binary64
