import PocketCalc.Binary64.Numeral
import PocketCalc.Error

/-!
# The readout of a value

A value is shown as a decimal with a limited number of places: its shortest decimal, rounded, a
half away from zero, and without zeros at its end.  Past some sixteen digits the rounded text can
read as a double with another shortest decimal; therefore the rounded text is read and rounded
once more.
-/

namespace PocketCalc

/-- The shortest decimal of `v`, rounded to at most `places` places. -/
def roundedText (places : Nat) (v : Float) : List Char :=
  ((Binary64.toDecimal v).round places).trim.text

/-- The text that shows `v` with at most `places` places. -/
def readout (v : Float) (places : Nat) : Except FormatError (List Char) :=
  if Binary64.isFinite v then
    match Binary64.Numeral.read? (roundedText places v) with
    | some w => .ok (roundedText places w)
    | none => .error (.unreadable (roundedText places v))
  else .error (.notFinite v)

end PocketCalc
