/-!
# Decimal numbers

A decimal number is an integer coefficient and a number of places after the point.  This module
writes it as text, rounds it to fewer (or more) places, and drops the zeros at its end.  Nothing
here loses a digit but `Decimal.round`, which goes to the nearest number with the given places, a
half away from zero.
-/

namespace PocketCalc

/-- Ten to the power of `n`. -/
def tenPow (n : Nat) : Nat := Nat.pow 10 n

/-- The number `coeff / 10 ^ places`. -/
structure Decimal where
  /-- The digits read as one integer, without the point. -/
  coeff : Int
  /-- The number of digits after the point. -/
  places : Nat
deriving DecidableEq

namespace Decimal

/-- The decimal with the other sign. -/
def neg (d : Decimal) : Decimal := ⟨-d.coeff, d.places⟩

/-- The decimal in full: a sign when negative, the integer part, and, when there are places, a
point and as many digits. -/
def text (d : Decimal) : List Char :=
  let sign := if d.coeff < 0 then ['-'] else []
  let whole := Nat.toDigits 10 (d.coeff.natAbs / tenPow d.places)
  let fraction := Nat.toDigits 10 (d.coeff.natAbs % tenPow d.places)
  if d.places = 0 then sign ++ whole
  else sign ++ whole ++ '.' :: fraction.leftpad d.places '0'

/-- The nearest decimal with the given places; a half goes away from zero. -/
def round (places : Nat) (d : Decimal) : Decimal :=
  let scaled := d.coeff.natAbs * tenPow places
  let magnitude := (2 * scaled + tenPow d.places) / (2 * tenPow d.places)
  ⟨d.coeff.sign * magnitude, places⟩

/-- The number `coeff / 10 ^ places` without zeros at the end of its places. -/
def trimmed (coeff : Int) : Nat → Decimal
  | 0 => ⟨coeff, 0⟩
  | places + 1 => if coeff % 10 = 0 then trimmed (coeff / 10) places else ⟨coeff, places + 1⟩

/-- The same number without zeros at the end of its places. -/
def trim (d : Decimal) : Decimal := trimmed d.coeff d.places

end Decimal

/-! ### Small laws -/

@[simp] theorem tenPow_zero : tenPow 0 = 1 := rfl

theorem tenPow_succ (n : Nat) : tenPow (n + 1) = tenPow n * 10 := rfl

theorem tenPow_pos (n : Nat) : 0 < tenPow n := Nat.pow_pos (by decide)

theorem tenPow_add (m n : Nat) : tenPow (m + n) = tenPow m * tenPow n := Nat.pow_add 10 m n

namespace Decimal

@[simp] theorem places_round (places : Nat) (d : Decimal) : (d.round places).places = places := rfl

/-- The number of places left is at most the number there was. -/
theorem places_trimmed_le (coeff : Int) (places : Nat) :
    (trimmed coeff places).places ≤ places := by
  induction places generalizing coeff with
  | zero => simp [trimmed]
  | succ places ih =>
    simp only [trimmed]
    split
    · exact Nat.le_succ_of_le (ih _)
    · exact Nat.le_refl _

/-- Trimming keeps the number: both coefficients agree over the larger number of places. -/
theorem coeff_trimmed (coeff : Int) (places : Nat) :
    (trimmed coeff places).coeff * tenPow (places - (trimmed coeff places).places) = coeff := by
  induction places generalizing coeff with
  | zero => simp [trimmed]
  | succ places ih =>
    simp only [trimmed]
    split
    · rename_i h
      have hle := places_trimmed_le (coeff / 10) places
      rw [Nat.succ_sub hle, tenPow_succ, Int.natCast_mul, ← Int.mul_assoc, ih]
      omega
    · simp

/-- No zero is left at the end of the places. -/
theorem coeff_trimmed_emod_ne_zero (coeff : Int) (places : Nat)
    (h : (trimmed coeff places).places ≠ 0) : (trimmed coeff places).coeff % 10 ≠ 0 := by
  induction places generalizing coeff with
  | zero => simp [trimmed] at h
  | succ places ih =>
    simp only [trimmed] at h ⊢
    split <;> rename_i h10
    · rw [if_pos h10] at h
      exact ih _ h
    · exact h10

end Decimal

end PocketCalc
