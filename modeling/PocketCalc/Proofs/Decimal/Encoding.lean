import PocketCalc.Proofs.Decimal.Canonical
import PocketCalc.Proofs.Decimal.Reading

/-!
# Integers written with a point

With the places fixed, a decimal is an integer, and its text is this integer with a point before its
last digits.  None of its parts leaves a digit out: the digits before the point are the quotient by
the power of ten, and those after it, as many as there are places, the remainder
(`value_fraction`).  Hence the text can be read back, and no two integers have the same text.

Main statement: `text_exact_and_injective`.
-/

namespace PocketCalc.Decimal

open Binary64.Numeral

variable (d : Decimal)

theorem value_whole : value d.whole = d.coeff.natAbs / tenPow d.places :=
  Nat.ofDigitChars_ten_toDigits

theorem value_fraction : value d.fraction = d.coeff.natAbs % tenPow d.places := by
  rw [value, fraction, value_lastDigits, Nat.mul_zero, Nat.zero_add]

theorem isWhole_whole : IsWhole d.whole := isWhole_toDigits _

/-- The text tells the decimal. -/
theorem text_injective : Function.Injective text := by
  intro d e h
  have hsome : some d = some e := by rw [← ofText?_text d, ← ofText?_text e, h]
  exact Option.some.inj hsome

/-- **An integer written with a point before its last digits keeps every digit.**  The text is a
minus sign if the integer is negative, the digits of the quotient by the power of ten without
superfluous zeros, and, if there are places, a point and exactly as many digits, those of the
remainder.  The number that it writes, times the power of ten, is the integer, so that with the same
places no two integers have the same text. -/
theorem text_exact_and_injective (places : ℕ) :
    (∀ n : ℤ, ∃ whole fraction : List Char,
      text ⟨n, places⟩ = (if n < 0 then ['-'] else []) ++ whole ++
        (if places = 0 then [] else '.' :: fraction) ∧
      IsWhole whole ∧ value whole = n.natAbs / 10 ^ places ∧
      fraction.length = places ∧ (∀ c ∈ fraction, c.isDigit = true) ∧
      value fraction = n.natAbs % 10 ^ places ∧
      ∃ x, number? (text ⟨n, places⟩) = some x ∧ x * 10 ^ places = n) ∧
    Function.Injective fun n : ℤ => text ⟨n, places⟩ := by
  refine ⟨fun n => ⟨whole ⟨n, places⟩, fraction ⟨n, places⟩, ?_, isWhole_whole _, value_whole _,
    length_fraction _, fun c => isDigit_of_mem_fraction, value_fraction _, _, number?_text _, ?_⟩,
    fun m n h => ?_⟩
  · rw [text_eq, figures_eq, List.append_assoc]
  · have hne : (10 : ℚ) ^ places ≠ 0 := by positivity
    exact div_mul_cancel₀ _ hne
  · exact congrArg coeff (text_injective h)

/-- A negative integer with fewer digits than places has zeros in front of them. -/
example : text ⟨-5, 3⟩ = ['-', '0', '.', '0', '0', '5'] := by decide

end PocketCalc.Decimal
