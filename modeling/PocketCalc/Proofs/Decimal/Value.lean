import Mathlib.Algebra.Order.Field.Power
import Mathlib.Data.Rat.Cast.Order
import Mathlib.Tactic.FieldSimp
import Mathlib.Tactic.Linarith
import Mathlib.Tactic.NormNum
import Mathlib.Tactic.Positivity
import Mathlib.Tactic.Ring
import PocketCalc.Decimal.Basic

/-!
# The number that a decimal stands for

Dropping the zeros at the end keeps the number (`toRat_trim`).  Rounding goes to the nearest number
with the given places, and of two equally near to the one further from zero (`isNearest_round`): it
keeps the number if there are places enough (`toRat_round_of_le`), and otherwise moves it by less
than one (`abs_toRat_round_le`).

Main statement: `isNearest_round`.
-/

namespace PocketCalc

theorem cast_tenPow (n : ℕ) : ((tenPow n : ℕ) : ℚ) = 10 ^ n := Nat.cast_pow 10 n

namespace Decimal

/-- The number that a decimal stands for. -/
def toRat (d : Decimal) : ℚ := d.coeff / 10 ^ d.places

theorem places_neg (d : Decimal) : d.neg.places = d.places := rfl

/-- Zero has no sign. -/
theorem neg_of_coeff_eq_zero {d : Decimal} (h : d.coeff = 0) : d.neg = d := by
  obtain ⟨coeff, places⟩ := d
  obtain rfl : coeff = 0 := h
  rfl

theorem toRat_neg (d : Decimal) : d.neg.toRat = -d.toRat := by
  simp [toRat, neg, neg_div]

theorem toRat_lt_zero_iff {d : Decimal} : d.toRat < 0 ↔ d.coeff < 0 := by
  rw [toRat, div_lt_iff₀ (by positivity), zero_mul]
  exact Int.cast_lt_zero

theorem abs_toRat (d : Decimal) : |d.toRat| = d.coeff.natAbs * 10 ^ (-d.places : ℤ) := by
  rw [toRat, abs_div, abs_of_pos (by positivity : (0 : ℚ) < 10 ^ d.places), zpow_neg, zpow_natCast,
    div_eq_mul_inv, Nat.cast_natAbs, Int.cast_abs]

theorem neg_neg_self (d : Decimal) : d.neg.neg = d := by
  rw [neg, neg, Int.neg_neg]

theorem trimmed_neg (coeff : ℤ) (places : ℕ) :
    trimmed (-coeff) places = (trimmed coeff places).neg := by
  induction places generalizing coeff with
  | zero => rfl
  | succ places ih =>
    have hmod : -coeff % 10 = 0 ↔ coeff % 10 = 0 := by omega
    rw [trimmed, trimmed]
    by_cases h : coeff % 10 = 0
    · have hdiv : -coeff / 10 = -(coeff / 10) := by omega
      rw [if_pos (hmod.2 h), if_pos h, hdiv, ih]
    · rw [if_neg (mt hmod.1 h), if_neg h]
      rfl

theorem trim_neg (d : Decimal) : d.neg.trim = d.trim.neg := trimmed_neg d.coeff d.places

theorem toRat_trim (d : Decimal) : d.trim.toRat = d.toRat := by
  have hcoeff := congrArg (Int.cast (R := ℚ)) (coeff_trimmed d.coeff d.places)
  have hplaces := Nat.sub_add_cancel (places_trimmed_le d.coeff d.places)
  have hpow := congrArg (fun n => (10 : ℚ) ^ n) hplaces
  simp only [Int.cast_mul, Int.cast_natCast, cast_tenPow, pow_add] at hcoeff hpow
  rw [toRat, toRat, div_eq_div_iff (by positivity) (by positivity), ← hcoeff, ← hpow, trim]
  ring

/-! ### Rounding -/

/-- The coefficient that rounding gives, without its sign. -/
def roundedMagnitude (places : ℕ) (d : Decimal) : ℕ :=
  (2 * (d.coeff.natAbs * tenPow places) + tenPow d.places) / (2 * tenPow d.places)

theorem round_eq (places : ℕ) (d : Decimal) :
    d.round places = ⟨d.coeff.sign * roundedMagnitude places d, places⟩ := rfl

theorem round_neg (places : ℕ) (d : Decimal) : d.neg.round places = (d.round places).neg := by
  simp only [round, neg, Int.sign_neg, Int.natAbs_neg, Int.neg_mul]

/-- With places enough, the coefficient only gets zeros at its end. -/
theorem roundedMagnitude_add (d : Decimal) (k : ℕ) :
    roundedMagnitude (d.places + k) d = d.coeff.natAbs * tenPow k := by
  have hpos := tenPow_pos d.places
  have hscaled : 2 * (d.coeff.natAbs * tenPow (d.places + k)) =
      2 * tenPow d.places * (d.coeff.natAbs * tenPow k) := by
    rw [tenPow_add]
    ring
  rw [roundedMagnitude, hscaled, Nat.mul_add_div (by omega), Nat.div_eq_of_lt (by omega),
    Nat.add_zero]

/-- With places enough, rounding keeps the number. -/
theorem toRat_round_of_le {d : Decimal} {places : ℕ} (h : d.places ≤ places) :
    (d.round places).toRat = d.toRat := by
  obtain ⟨k, rfl⟩ := Nat.exists_eq_add_of_le h
  have hcoeff : d.coeff.sign * (roundedMagnitude (d.places + k) d : ℤ) = d.coeff * tenPow k := by
    rw [roundedMagnitude_add, Nat.cast_mul, ← mul_assoc, Int.sign_mul_natAbs]
  rw [round_eq, hcoeff, toRat, toRat, Int.cast_mul, Int.cast_natCast, cast_tenPow, pow_add]
  field_simp

/-! ### The nearest number with the given places -/

/-- The integer `m` is the nearest one to `y`; of two equally near it is the one further from
zero. -/
def IsNearest (y : ℚ) (m : ℤ) : Prop := |y - m| ≤ 1 / 2 ∧ (|y - m| = 1 / 2 → |y| < |(m : ℚ)|)

theorem IsNearest.neg {y : ℚ} {m : ℤ} (h : IsNearest y m) : IsNearest (-y) (-m) := by
  have hdist : |-y - ((-m : ℤ) : ℚ)| = |y - m| := by
    rw [Int.cast_neg, ← neg_sub', abs_neg]
  have habs : |((-m : ℤ) : ℚ)| = |(m : ℚ)| := by rw [Int.cast_neg, abs_neg]
  rw [IsNearest, hdist, habs, abs_neg]
  exact h

/-- Of two neighbours, only one is the nearest. -/
theorem not_isNearest_succ {y : ℚ} {m : ℤ} (h : IsNearest y m) : ¬ IsNearest y (m + 1) := by
  rintro ⟨hle, htie⟩
  obtain ⟨hle', htie'⟩ := h
  push_cast at hle htie
  -- the number lies halfway between the two, and so does its absolute value
  have hy : y = m + 1 / 2 := by
    rw [abs_le] at hle hle'
    linarith
  have hdist : |y - m| = 1 / 2 := by
    rw [hy, add_sub_cancel_left]
    norm_num
  have hdist' : |y - (m + 1)| = 1 / 2 := by
    rw [hy, add_sub_add_left_eq_sub]
    norm_num
  have hlt := htie' hdist
  have hlt' := htie hdist'
  rw [hy] at hlt hlt'
  rcases le_or_gt 0 m with hm | hm
  · have hcast : (0 : ℚ) ≤ m := by exact_mod_cast hm
    rw [abs_of_nonneg (by linarith), abs_of_nonneg hcast] at hlt
    linarith
  · have hcast : (m : ℚ) + 1 ≤ 0 := by exact_mod_cast hm
    rw [abs_of_nonpos (by linarith), abs_of_nonpos hcast] at hlt'
    linarith

/-- There is only one nearest integer. -/
theorem IsNearest.unique {y : ℚ} {m n : ℤ} (hm : IsNearest y m) (hn : IsNearest y n) : m = n := by
  have hm' := abs_le.1 hm.1
  have hn' := abs_le.1 hn.1
  have hle : (m : ℚ) ≤ n + 1 := by linarith
  have hge : (n : ℚ) ≤ m + 1 := by linarith
  have hle' : m ≤ n + 1 := by exact_mod_cast hle
  have hge' : n ≤ m + 1 := by exact_mod_cast hge
  by_contra hne
  rcases lt_or_gt_of_ne hne with hlt | hlt
  · obtain rfl : n = m + 1 := by omega
    exact not_isNearest_succ hm hn
  · obtain rfl : m = n + 1 := by omega
    exact not_isNearest_succ hn hm

/-- A larger number does not have a smaller nearest integer. -/
theorem IsNearest.mono {x y : ℚ} {m n : ℤ} (hm : IsNearest x m) (hn : IsNearest y n) (h : x ≤ y) :
    m ≤ n := by
  by_contra hlt
  have hm' := abs_le.1 hm.1
  have hn' := abs_le.1 hn.1
  have hsucc : (n : ℚ) + 1 ≤ m := by exact_mod_cast not_le.1 hlt
  -- the two numbers are one and the same, halfway between the integers
  obtain rfl : x = y := by linarith
  exact hlt (hm.unique hn).le

theorem isNearest_roundedMagnitude (places : ℕ) (d : Decimal) :
    IsNearest (|d.toRat| * 10 ^ places) (roundedMagnitude places d) := by
  have hunit : (0 : ℚ) < 10 ^ d.places := by positivity
  have hscaled :
      |d.toRat| * 10 ^ places * 10 ^ d.places = (d.coeff.natAbs * tenPow places : ℕ) := by
    rw [toRat, abs_div, abs_of_pos hunit, ← Int.cast_abs, ← Nat.cast_natAbs]
    push_cast [cast_tenPow]
    field_simp
  have hlow := Nat.div_mul_le_self
    (2 * (d.coeff.natAbs * tenPow places) + tenPow d.places) (2 * tenPow d.places)
  have hhigh := Nat.lt_div_mul_add (a := 2 * (d.coeff.natAbs * tenPow places) + tenPow d.places)
    (Nat.mul_pos Nat.two_pos (tenPow_pos d.places))
  have hnonneg : 0 ≤ |d.toRat| * 10 ^ places := by positivity
  rw [← Nat.cast_le (α := ℚ)] at hlow
  rw [← Nat.cast_lt (α := ℚ)] at hhigh
  rw [← roundedMagnitude] at hlow hhigh
  simp only [Nat.cast_add, Nat.cast_mul 2, Nat.cast_mul (roundedMagnitude places d), ← hscaled,
    cast_tenPow, Nat.cast_ofNat] at hlow hhigh
  generalize |d.toRat| * 10 ^ places = y at hlow hhigh hnonneg ⊢
  generalize roundedMagnitude places d = m at hlow hhigh ⊢
  -- rounding up by a half at most, and down by less than a half
  have hup : (m : ℚ) ≤ y + 1 / 2 := le_of_mul_le_mul_right (by linarith) hunit
  have hdown : y < m + 1 / 2 := lt_of_mul_lt_mul_right (by linarith) hunit.le
  rw [IsNearest, Int.cast_natCast, abs_le, Nat.abs_cast, abs_of_nonneg hnonneg]
  refine ⟨⟨by linarith, by linarith⟩, fun htie => ?_⟩
  rcases eq_or_eq_neg_of_abs_eq htie with h | h <;> linarith

/-- **Rounding goes to the nearest number with the given places.** -/
theorem isNearest_round (places : ℕ) (d : Decimal) :
    IsNearest (d.toRat * 10 ^ places) (d.round places).coeff := by
  have hmagnitude := isNearest_roundedMagnitude places d
  rw [round_eq]
  rcases lt_trichotomy d.coeff 0 with hneg | hzero | hpos
  · rw [abs_of_neg (toRat_lt_zero_iff.2 hneg)] at hmagnitude
    simpa [Int.sign_eq_neg_one_of_neg hneg] using hmagnitude.neg
  · simp [IsNearest, toRat, hzero]
  · rw [abs_of_nonneg (not_lt.1 (mt toRat_lt_zero_iff.1 hpos.not_gt))] at hmagnitude
    rwa [Int.sign_eq_one_of_pos hpos, one_mul]

/-- **Rounding keeps the order.** -/
theorem toRat_round_mono {d e : Decimal} (h : d.toRat ≤ e.toRat) (places : ℕ) :
    (d.round places).toRat ≤ (e.round places).toRat := by
  have hscaled : d.toRat * 10 ^ places ≤ e.toRat * 10 ^ places :=
    mul_le_mul_of_nonneg_right h (by positivity)
  have hcoeff := (isNearest_round places d).mono (isNearest_round places e) hscaled
  rw [toRat, toRat, places_round, places_round]
  gcongr

/-- Rounding goes away from zero by less than one. -/
theorem abs_toRat_round_le (places : ℕ) (d : Decimal) :
    |(d.round places).toRat| ≤ |d.toRat| + 1 := by
  have hpos : (0 : ℚ) < 10 ^ places := by positivity
  have hone : (1 : ℚ) ≤ 10 ^ places := one_le_pow₀ (by norm_num)
  have hle := abs_sub_abs_le_abs_sub ((d.round places).coeff : ℚ) (d.toRat * 10 ^ places)
  have hnearest := (isNearest_round places d).1
  rw [abs_sub_comm] at hnearest
  rw [abs_mul, abs_of_pos hpos] at hle
  rw [toRat, places_round, abs_div, abs_of_pos hpos, div_le_iff₀ hpos]
  linarith

end Decimal

end PocketCalc
