import PocketCalc.Binary64.Order
import PocketCalc.Proofs.Decimal.Value

/-!
# Rounding to the nearest double

Reading a decimal is rounding of a rational number: the index that `ofScientific` gives depends only
on the number `coeff * 10 ^ exponent` (`ofScientific_eq`).  This rounding `nearestIndex` is monotone
(`nearestIndex_mono`) and keeps every double (`nearestIndex_toRat`); whatever else is known about it
here follows from these two facts.

Main statements: `ofScientific_eq`, `nearestIndex_mono`, `nearestIndex_toRat`.
-/

namespace PocketCalc.Binary64

/-- The double with index `n` as a rational number. -/
def toRat (n : ℕ) : ℚ := units n / 2 ^ maxPrecision

/-- The index of the double nearest to `x`, or zero if `x` is negative. -/
def nearestIndex (x : ℚ) : ℕ := nearest (x.num.toNat * 2 ^ maxPrecision) x.den

/-- The number halfway between the double with index `n` and the next one. -/
def border (n : ℕ) : ℚ := (toRat n + toRat (n + 1)) / 2

/-- `x` is rounded to a double after the one with index `n`. -/
def Above (x : ℚ) (n : ℕ) : Prop := border n < x ∨ border n = x ∧ n % 2 = 1

theorem toRat_lt_toRat {m n : ℕ} (h : m < n) : toRat m < toRat n := by
  have := units_lt_units h
  unfold toRat
  gcongr

theorem toRat_le_toRat {m n : ℕ} (h : m ≤ n) : toRat m ≤ toRat n := by
  have := units_le_units_iff.2 h
  unfold toRat
  gcongr

theorem toRat_lt_border (n : ℕ) : toRat n < border n := by
  have := toRat_lt_toRat (Nat.lt_succ_self n)
  unfold border
  linarith

theorem border_lt_toRat (n : ℕ) : border n < toRat (n + 1) := by
  have := toRat_lt_toRat (Nat.lt_succ_self n)
  unfold border
  linarith

theorem Above.mono {x y : ℚ} {n : ℕ} (h : Above x n) (hxy : x ≤ y) : Above y n := by
  rcases h with h | ⟨rfl, hodd⟩
  · exact .inl (h.trans_le hxy)
  · rcases hxy.lt_or_eq with hlt | heq
    · exact .inl hlt
    · exact .inr ⟨heq, hodd⟩

/-! ### Where a quotient is rounded to -/

/-- Rounding goes past index `n` exactly if the quotient is above the border after it. -/
theorem lt_nearest_iff {num den n : ℕ} (hden : 0 < den) :
    n < nearest num den ↔ n < infIndex ∧
      ((units n + units (n + 1)) * den < 2 * num ∨
        (units n + units (n + 1)) * den = 2 * num ∧ n % 2 = 1) := by
  obtain ⟨hlow, hhigh⟩ := units_floorIndex_le (num / den)
  rw [Nat.le_div_iff_mul_le hden] at hlow
  rw [Nat.div_lt_iff_lt_mul hden] at hhigh
  unfold nearest
  generalize floorIndex (num / den) = below at hlow hhigh ⊢
  rw [lt_min_iff, and_comm]
  refine and_congr_right fun _ => ?_
  rcases lt_trichotomy n below with hn | rfl | hn
  · -- the double after index `n` is at most the quotient
    have hunits : units n < units (n + 1) ∧ units (n + 1) ≤ units below :=
      ⟨units_lt_units_succ n, units_le_units_iff.2 hn⟩
    have hmul : (units n + units (n + 1)) * den < 2 * (units below * den) := by
      rw [← mul_assoc]
      exact Nat.mul_lt_mul_of_pos_right (by omega) hden
    refine iff_of_true ?_ (.inl (by omega))
    split_ifs <;> omega
  · split_ifs <;> omega
  · -- the double with index `n` is greater than the quotient
    have hunits : units (below + 1) ≤ units n ∧ units n < units (n + 1) :=
      ⟨units_le_units_iff.2 hn, units_lt_units_succ n⟩
    have hmul : 2 * (units (below + 1) * den) < (units n + units (n + 1)) * den := by
      rw [← mul_assoc]
      exact Nat.mul_lt_mul_of_pos_right (by omega) hden
    refine iff_of_false ?_ (by omega)
    have hmiddle : ¬ (units below + units (below + 1)) * den < 2 * num → n ≠ below := by omega
    split_ifs <;> omega

theorem lt_nearest_iff_above {num den n : ℕ} (hden : 0 < den) :
    n < nearest num den ↔ n < infIndex ∧ Above (num / den / 2 ^ maxPrecision) n := by
  have hpos : (0 : ℚ) < 2 * den * 2 ^ maxPrecision := by positivity
  have hne : (den : ℚ) ≠ 0 := by positivity
  -- both sides over one denominator
  have hborder :
      border n = ((units n + units (n + 1)) * den : ℕ) / (2 * den * 2 ^ maxPrecision) := by
    unfold border toRat
    push_cast
    field_simp
  have hquotient : (num : ℚ) / den / 2 ^ maxPrecision =
      (2 * num : ℕ) / (2 * den * 2 ^ maxPrecision) := by
    push_cast
    field_simp
  rw [lt_nearest_iff hden, Above, hborder, hquotient, div_lt_div_iff_of_pos_right hpos,
    div_left_inj' hpos.ne', Nat.cast_lt, Nat.cast_inj]

theorem lt_nearestIndex_iff {x : ℚ} {n : ℕ} (hx : 0 ≤ x) :
    n < nearestIndex x ↔ n < infIndex ∧ Above x n := by
  have hnum : ((x.num.toNat : ℕ) : ℚ) = x.num := by
    exact_mod_cast Int.toNat_of_nonneg (Rat.num_nonneg.2 hx)
  have hquotient : ((x.num.toNat * 2 ^ maxPrecision : ℕ) : ℚ) / x.den / 2 ^ maxPrecision = x := by
    rw [Nat.cast_mul, hnum, Nat.cast_pow, Nat.cast_ofNat, mul_div_right_comm, Rat.num_div_den,
      mul_div_cancel_right₀ _ (by positivity)]
  rw [nearestIndex, lt_nearest_iff_above x.den_pos, hquotient]

/-! ### Rounding -/

theorem nearestIndex_le (x : ℚ) : nearestIndex x ≤ infIndex := Nat.min_le_right _ _

/-- A larger number is not rounded to a smaller double. -/
theorem nearestIndex_mono {x y : ℚ} (hx : 0 ≤ x) (h : x ≤ y) :
    nearestIndex x ≤ nearestIndex y := by
  refine le_of_forall_lt fun n hn => ?_
  obtain ⟨hinf, habove⟩ := (lt_nearestIndex_iff hx).1 hn
  exact (lt_nearestIndex_iff (hx.trans h)).2 ⟨hinf, habove.mono h⟩

theorem toRat_nonneg (n : ℕ) : 0 ≤ toRat n := by
  unfold toRat
  positivity

/-- A double is rounded to itself. -/
theorem nearestIndex_toRat {n : ℕ} (hn : n ≤ infIndex) : nearestIndex (toRat n) = n := by
  refine eq_of_forall_lt_iff fun k => ?_
  rw [lt_nearestIndex_iff (toRat_nonneg n)]
  constructor
  · rintro ⟨-, habove⟩
    by_contra hle
    have hborder := toRat_lt_border k
    have hrat := toRat_le_toRat (not_lt.1 hle)
    rcases habove with h | ⟨h, -⟩ <;> linarith
  · intro hk
    exact ⟨hk.trans_le hn, .inl ((border_lt_toRat k).trans_le (toRat_le_toRat hk))⟩

/-! ### Decimals out of range -/

theorem lt_ten_pow_length (coeff : ℕ) : coeff < 10 ^ (Nat.toDigits 10 coeff).length :=
  (Nat.length_toDigits_le_iff (by decide) Nat.length_toDigits_pos).1 le_rfl

theorem ten_pow_length_le {coeff : ℕ} (h : coeff ≠ 0) :
    10 ^ ((Nat.toDigits 10 coeff).length - 1) ≤ coeff := by
  by_contra hlt
  have hpos : 0 < (Nat.toDigits 10 coeff).length - 1 := by
    by_contra hzero
    rw [Nat.eq_zero_of_not_pos hzero] at hlt
    omega
  have hle := (Nat.length_toDigits_le_iff (by decide) hpos).2 (not_le.1 hlt)
  omega

theorem border_le_border {m n : ℕ} (h : m ≤ n) : border m ≤ border n := by
  have hm := toRat_le_toRat h
  have hn := toRat_le_toRat (Nat.succ_le_succ h)
  unfold border
  linarith

/-- A number below the first border is rounded to zero. -/
theorem not_above_of_lt {x : ℚ} (h : x < 10 ^ (-324 : ℤ)) (n : ℕ) : ¬ Above x n := by
  have hzero : border 0 = 1 / 2 ^ (maxPrecision + 1) := by
    have h0 : units 0 = 0 := rfl
    have h1 : units 1 = 1 := rfl
    rw [border, toRat, toRat, h0, h1, pow_succ, div_mul_eq_div_div]
    norm_num
  have hpow : (10 : ℚ) ^ (-324 : ℤ) ≤ 1 / 2 ^ (maxPrecision + 1) := by
    have hnat : 2 ^ (maxPrecision + 1) ≤ 10 ^ 324 := by decide +kernel
    rw [zpow_neg, ← one_div]
    exact one_div_le_one_div_of_le (by positivity) (by exact_mod_cast hnat)
  have hborder := border_le_border (Nat.zero_le n)
  rintro (habove | ⟨habove, -⟩) <;> linarith

theorem toRat_two_pow (k : ℕ) : toRat ((k + 1022) * leadingBit + leadingBit) = 2 ^ k := by
  have hpow : leadingBit * 2 ^ (k + 1022) = 2 ^ k * 2 ^ maxPrecision := by
    have hleading : leadingBit = 2 ^ 52 := rfl
    have hexponent : 52 + (k + 1022) = k + maxPrecision := by
      simp only [maxPrecision]
      omega
    rw [hleading, ← pow_add, ← pow_add, hexponent]
  rw [toRat, units_shift le_rfl (by decide), Nat.shiftLeft_eq, hpow, Nat.cast_mul, Nat.cast_pow,
    Nat.cast_pow, Nat.cast_ofNat, mul_div_cancel_right₀ _ (by positivity)]

/-- A number beyond the largest double is rounded to infinity. -/
theorem above_of_le {x : ℚ} (h : 10 ^ (309 : ℤ) ≤ x) {n : ℕ} (hn : n < infIndex) : Above x n := by
  have hpow : (2 : ℚ) ^ 1024 ≤ 10 ^ (309 : ℤ) := by
    have hnat : 2 ^ 1024 ≤ 10 ^ 309 := by decide +kernel
    exact_mod_cast hnat
  refine .inl ?_
  calc border n < toRat (n + 1) := border_lt_toRat n
    _ ≤ toRat infIndex := toRat_le_toRat hn
    _ = 2 ^ 1024 := toRat_two_pow 1024
    _ ≤ 10 ^ (309 : ℤ) := hpow
    _ ≤ x := h

/-! ### Decimals -/

theorem ten_zpow_eq (e : ℤ) : (10 : ℚ) ^ e = tenPow e.toNat / tenPow (-e).toNat := by
  have hsplit : e = (e.toNat : ℤ) - ((-e).toNat : ℤ) := by omega
  rw [cast_tenPow, cast_tenPow, ← zpow_natCast, ← zpow_natCast, ← zpow_sub₀ (by norm_num), ← hsplit]

theorem mul_ten_zpow_nonneg (coeff : ℕ) (e : ℤ) : (0 : ℚ) ≤ coeff * 10 ^ e := by positivity

/-- What a decimal is read as depends on the number alone. -/
theorem ofScientific_eq (coeff : ℕ) (e : ℤ) :
    ofScientific coeff e = nearestIndex (coeff * 10 ^ e) := by
  refine eq_of_forall_lt_iff fun n => ?_
  rw [lt_nearestIndex_iff (mul_ten_zpow_nonneg coeff e)]
  unfold ofScientific
  by_cases hzero : coeff = 0
  · have hborder := (toRat_nonneg n).trans_lt (toRat_lt_border n)
    have : ¬ Above 0 n := by rintro (h | ⟨h, -⟩) <;> linarith
    simp [hzero, this]
  by_cases hsmall : ((Nat.toDigits 10 coeff).length : ℤ) + e ≤ -324
  · have hlt : (coeff : ℚ) * 10 ^ e < 10 ^ (-324 : ℤ) := by
      calc (coeff : ℚ) * 10 ^ e < 10 ^ (Nat.toDigits 10 coeff).length * 10 ^ e := by
            gcongr
            exact_mod_cast lt_ten_pow_length coeff
        _ = 10 ^ (((Nat.toDigits 10 coeff).length : ℤ) + e) := by
            rw [zpow_add₀ (by norm_num), zpow_natCast]
        _ ≤ 10 ^ (-324 : ℤ) := zpow_le_zpow_right₀ (by norm_num) hsmall
    simp [hsmall, not_above_of_lt hlt]
  by_cases hlarge : 310 ≤ ((Nat.toDigits 10 coeff).length : ℤ) + e
  · have hle : (10 : ℚ) ^ (309 : ℤ) ≤ coeff * 10 ^ e := by
      have hlength : 0 < (Nat.toDigits 10 coeff).length := Nat.length_toDigits_pos
      calc (10 : ℚ) ^ (309 : ℤ) ≤ 10 ^ ((((Nat.toDigits 10 coeff).length - 1 : ℕ) : ℤ) + e) :=
            zpow_le_zpow_right₀ (by norm_num) (by omega)
        _ = 10 ^ ((Nat.toDigits 10 coeff).length - 1) * 10 ^ e := by
            rw [zpow_add₀ (by norm_num), zpow_natCast]
        _ ≤ coeff * 10 ^ e := by
            gcongr
            exact_mod_cast ten_pow_length_le hzero
    simp only [hzero, hsmall, hlarge, if_true, if_false, or_self]
    exact ⟨fun hn => ⟨hn, above_of_le hle hn⟩, And.left⟩
  · have hquotient : (((coeff * tenPow e.toNat) <<< maxPrecision : ℕ) : ℚ) / tenPow (-e).toNat /
        2 ^ maxPrecision = coeff * 10 ^ e := by
      rw [Nat.shiftLeft_eq, ten_zpow_eq, Nat.cast_mul, Nat.cast_mul, Nat.cast_pow, Nat.cast_ofNat]
      field_simp
    simp only [hzero, hsmall, hlarge, if_false, or_self]
    rw [lt_nearest_iff_above (tenPow_pos _), hquotient]

theorem ofScientific_le (coeff : ℕ) (e : ℤ) : ofScientific coeff e ≤ infIndex := by
  rw [ofScientific_eq]
  exact nearestIndex_le _

end PocketCalc.Binary64
