import Mathlib.Data.List.Basic
import PocketCalc.Proofs.Decimal.Text

/-!
# Canonical texts

A number has many decimal texts.  The canonical one has no superfluous character: no zero in front
of other digits before the point, none at the end of those after it, no point without digits after
it, and no sign if it is zero (`IsCanonical`).  The text of a decimal is canonical if no zero is
left at the end of its places (`Decimal.IsTrimmed.isCanonical_text`).
-/

namespace PocketCalc

/-- Digits before a point: a single zero, or digits that do not start with one. -/
def IsWhole (l : List Char) : Prop :=
  l = ['0'] ∨ l ≠ [] ∧ (∀ c ∈ l, c.isDigit = true) ∧ l.head? ≠ some '0'

/-- A point and at most `places` digits, one at least and the last one not zero; or nothing. -/
def IsFraction (places : Nat) (l : List Char) : Prop :=
  l = [] ∨ ∃ digits, l = '.' :: digits ∧ 1 ≤ digits.length ∧ digits.length ≤ places ∧
    (∀ c ∈ digits, c.isDigit = true) ∧ digits.getLast? ≠ some '0'

/-- The text is a number with at most `places` places, written without a superfluous character; it
has a sign only if some digit of it is not zero. -/
def IsCanonical (places : Nat) (text : List Char) : Prop :=
  ∃ sign whole rest, text = sign ++ whole ++ rest ∧ IsWhole whole ∧ IsFraction places rest ∧
    (sign = [] ∨ sign = ['-'] ∧ ∃ c ∈ text, c.isDigit = true ∧ c ≠ '0')

theorem IsFraction.mono {m n : Nat} {l : List Char} (h : IsFraction m l) (hmn : m ≤ n) :
    IsFraction n l := by
  rcases h with rfl | ⟨digits, rfl, hone, hle, hdigits, hlast⟩
  · exact .inl rfl
  · exact .inr ⟨digits, rfl, hone, Nat.le_trans hle hmn, hdigits, hlast⟩

theorem IsCanonical.mono {m n : Nat} {text : List Char} (h : IsCanonical m text) (hmn : m ≤ n) :
    IsCanonical n text := by
  obtain ⟨sign, whole, rest, htext, hwhole, hrest, hsign⟩ := h
  exact ⟨sign, whole, rest, htext, hwhole, hrest.mono hmn, hsign⟩

/-! ### The digits of a number -/

/-- A number other than zero does not start with a zero. -/
theorem head?_toDigits_ne_zero {n : Nat} (h : n ≠ 0) : (Nat.toDigits 10 n).head? ≠ some '0' := by
  induction n using Nat.strongRecOn with
  | _ n ih =>
    rw [Nat.toDigits_eq_if (by decide)]
    by_cases hlt : n < 10
    · rw [if_pos hlt, List.head?_cons, ne_eq, Option.some.injEq, Nat.digitChar_eq_zero]
      exact h
    · have hquotient : n / 10 < n ∧ n / 10 ≠ 0 := by omega
      rw [if_neg hlt, List.head?_append_of_ne_nil _ Nat.toDigits_ne_nil]
      exact ih _ hquotient.1 hquotient.2

theorem exists_ne_zero_of_toDigits {n : Nat} (h : n ≠ 0) :
    ∃ c ∈ Nat.toDigits 10 n, c ≠ '0' := by
  obtain ⟨c, rest, hcons⟩ := List.exists_cons_of_ne_nil (Nat.toDigits_ne_nil (n := n) (b := 10))
  refine ⟨c, hcons ▸ List.mem_cons_self, ?_⟩
  rintro rfl
  exact head?_toDigits_ne_zero h (by rw [hcons]; rfl)

theorem isWhole_toDigits (n : Nat) : IsWhole (Nat.toDigits 10 n) := by
  by_cases h : n = 0
  · subst h
    exact .inl rfl
  · exact .inr ⟨Nat.toDigits_ne_nil, fun _ => Decimal.isDigit_of_mem_toDigits,
      head?_toDigits_ne_zero h⟩

/-! ### Decimals without zeros at their end -/

namespace Decimal

/-- No zero is left at the end of the places. -/
def IsTrimmed (d : Decimal) : Prop := d.places ≠ 0 → d.coeff % 10 ≠ 0

theorem isTrimmed_trim (d : Decimal) : d.trim.IsTrimmed :=
  coeff_trimmed_emod_ne_zero d.coeff d.places

variable {d : Decimal}

/-- With places, the last digit is not zero. -/
theorem IsTrimmed.exists_fraction_eq (h : d.IsTrimmed) (hplaces : d.places ≠ 0) :
    ∃ before c, d.fraction = before ++ [c] ∧ c.isDigit = true ∧ c ≠ '0' := by
  obtain ⟨coeff, _ | places⟩ := d
  · exact absurd rfl hplaces
  · refine ⟨_, _, rfl, isDigit_digitChar_mod _, ?_⟩
    have hlast : coeff % 10 ≠ 0 := h hplaces
    rw [ne_eq, Nat.digitChar_eq_zero]
    show coeff.natAbs % 10 ≠ 0
    omega

theorem IsTrimmed.isFraction (h : d.IsTrimmed) :
    IsFraction d.places (if d.places = 0 then [] else '.' :: d.fraction) := by
  by_cases hplaces : d.places = 0
  · rw [if_pos hplaces]
    exact .inl rfl
  · obtain ⟨before, c, hfraction, -, hne⟩ := h.exists_fraction_eq hplaces
    have hlength := d.length_fraction
    rw [if_neg hplaces]
    refine .inr ⟨_, rfl, by omega, by omega, fun _ => isDigit_of_mem_fraction, ?_⟩
    rw [hfraction, List.getLast?_concat, ne_eq, Option.some.injEq]
    exact hne

/-- A number other than zero has a digit other than zero. -/
theorem IsTrimmed.exists_digit (h : d.IsTrimmed) (hcoeff : d.coeff ≠ 0) :
    ∃ c ∈ d.text, c.isDigit = true ∧ c ≠ '0' := by
  rw [text_eq, figures_eq]
  by_cases hplaces : d.places = 0
  · have hne : d.coeff.natAbs / tenPow d.places ≠ 0 := by
      rw [hplaces, tenPow_zero, Nat.div_one]
      omega
    obtain ⟨c, hc, hzero⟩ := exists_ne_zero_of_toDigits hne
    refine ⟨c, ?_, isDigit_of_mem_toDigits hc, hzero⟩
    exact List.mem_append_right _ (List.mem_append_left _ hc)
  · obtain ⟨before, c, hfraction, hdigit, hzero⟩ := h.exists_fraction_eq hplaces
    exact ⟨c, by simp [hplaces, hfraction], hdigit, hzero⟩

/-- **The text of a decimal without zeros at its end is canonical.** -/
theorem IsTrimmed.isCanonical_text (h : d.IsTrimmed) : IsCanonical d.places d.text := by
  refine ⟨if d.coeff < 0 then ['-'] else [], d.whole, _, ?_, isWhole_toDigits _, h.isFraction, ?_⟩
  · rw [text_eq, figures_eq, List.append_assoc]
  · by_cases hneg : d.coeff < 0
    · rw [if_pos hneg]
      exact .inr ⟨rfl, h.exists_digit (Int.ne_of_lt hneg)⟩
    · rw [if_neg hneg]
      exact .inl rfl

end Decimal

end PocketCalc
