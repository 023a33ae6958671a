import PocketCalc.Binary64.Shortest
import PocketCalc.Proofs.Binary64.Nearest

/-!
# The shortest decimal reads back

A grid is searched at the two points beside the double only.  As rounding is monotone, one of the
two reads as the double if any point of the grid does (`exists_onGrid?_eq_some`).  Hence the decimal
that is found reads as the double (`nearestIndex_shortest`), and no decimal with fewer places does
(`places_shortest_le`).

Main statements: `nearestIndex_shortest`, `places_shortest_le`.
-/

namespace PocketCalc.Binary64

/-! ### One grid -/

theorem ofScientific_of_onGrid? {n m : ℕ} {e : ℤ} (h : onGrid? n e = some m) :
    ofScientific m e = n := by
  simp only [onGrid?] at h
  split at h
  · rename_i hlow hhigh
    obtain rfl := Option.some.inj h
    split
    · exact of_decide_eq_true hlow
    · exact of_decide_eq_true hhigh
  · rename_i hlow _
    obtain rfl := Option.some.inj h
    exact of_decide_eq_true hlow
  · rename_i _ hhigh
    obtain rfl := Option.some.inj h
    exact of_decide_eq_true hhigh
  · cases h

/-- A grid point in units. -/
theorem mul_gridNum_le_iff {n m : ℕ} {e : ℤ} :
    m * gridNum e ≤ units n * gridDen e ↔ (m : ℚ) * 10 ^ e ≤ toRat n := by
  have hden : (0 : ℚ) < tenPow (-e).toNat := by exact_mod_cast tenPow_pos _
  have hunit : (0 : ℚ) < 2 ^ maxPrecision := by positivity
  rw [ten_zpow_eq, toRat, ← mul_div_assoc, div_le_div_iff₀ hden hunit, gridNum, gridDen,
    Nat.shiftLeft_eq, ← Nat.cast_le (α := ℚ)]
  push_cast
  rw [mul_assoc]

/-- If a point of the grid reads as a double, one of the points beside the double does. -/
theorem exists_onGrid?_eq_some {n m : ℕ} {e : ℤ} (hn : n ≤ infIndex) (h : ofScientific m e = n) :
    ∃ m, onGrid? n e = some m := by
  have hpos : 0 < gridNum e := by
    rw [gridNum, Nat.shiftLeft_eq]
    exact Nat.mul_pos (tenPow_pos _) (Nat.two_pow_pos _)
  have hten : (0 : ℚ) < 10 ^ e := by positivity
  have hbeside : ofScientific (units n * gridDen e / gridNum e) e = n ∨
      ofScientific (units n * gridDen e / gridNum e + 1) e = n := by
    have hlow := mul_gridNum_le_iff.1 (Nat.div_mul_le_self (units n * gridDen e) (gridNum e))
    have hhigh := mt mul_gridNum_le_iff.2
      (not_le.2 (Nat.lt_mul_of_div_lt (Nat.lt_succ_self (units n * gridDen e / gridNum e)) hpos))
    generalize units n * gridDen e / gridNum e = low at hlow hhigh ⊢
    simp only [ofScientific_eq] at h ⊢
    have hself := nearestIndex_toRat hn
    -- on the side of the point that reads as the double, the nearest point lies in between
    rcases Nat.lt_or_ge low m with hm | hm
    · right
      refine le_antisymm ?_ ?_
      · rw [← h]
        refine nearestIndex_mono (mul_ten_zpow_nonneg _ _) ?_
        gcongr
        exact hm
      · rw [← hself]
        exact nearestIndex_mono (toRat_nonneg n) (not_le.1 hhigh).le
    · left
      refine le_antisymm ?_ ?_
      · rw [← hself]
        exact nearestIndex_mono (mul_ten_zpow_nonneg _ _) hlow
      · rw [← h]
        refine nearestIndex_mono (mul_ten_zpow_nonneg _ _) ?_
        gcongr
  unfold onGrid?
  rcases hbeside with hlow | hhigh
  · simp only [hlow, decide_true]
    split <;> simp_all
  · simp only [hhigh, decide_true]
    split <;> simp_all

/-! ### All grids -/

theorem toRat_gridPoint (m : ℕ) (e : ℤ) : (gridPoint m e).toRat = m * 10 ^ e := by
  rw [gridPoint, Decimal.toRat, ten_zpow_eq, ← mul_div_assoc]
  push_cast [cast_tenPow]
  rfl

theorem shiftRight_mul_tenPow (x places : ℕ) : (x * tenPow places) >>> places = x * 5 ^ places := by
  have hten : tenPow places = 5 ^ places * 2 ^ places := Nat.mul_pow 5 2 places
  rw [Nat.shiftRight_eq_div_pow, hten, ← mul_assoc, Nat.mul_div_cancel _ (Nat.two_pow_pos _)]

/-- A double has no more places than `maxPrecision`. -/
theorem toRat_exact (n : ℕ) : (exact n).toRat = toRat n := by
  have hten : (10 : ℚ) ^ maxPrecision = 5 ^ maxPrecision * 2 ^ maxPrecision := by
    rw [← mul_pow]
    norm_num
  rw [exact, shiftRight_mul_tenPow, Decimal.toRat, hten, toRat]
  push_cast
  rw [mul_comm ((5 : ℚ) ^ maxPrecision), mul_div_mul_right _ _ (by positivity)]

theorem neg_mem_gridExponents {n k : ℕ} (hk : k < maxPrecision) : (-k : ℤ) ∈ gridExponents n := by
  refine List.mem_map.2 ⟨(Nat.toDigits 10 (units n >>> maxPrecision)).length + k, ?_, by omega⟩
  rw [List.mem_range]
  omega

theorem neg_lt_of_mem_gridExponents {n : ℕ} {e : ℤ} (he : e ∈ gridExponents n) :
    -(maxPrecision : ℤ) < e := by
  obtain ⟨i, hi, rfl⟩ := List.mem_map.1 he
  rw [List.mem_range] at hi
  omega

/-- The grids get finer and finer. -/
theorem pairwise_gridExponents (n : ℕ) : (gridExponents n).Pairwise (· > ·) := by
  refine List.pairwise_map.2 (List.pairwise_lt_range.imp fun {i j} hij => ?_)
  simp only [gt_iff_lt]
  omega

/-- The shortest decimal is a point of the first grid with one, or all of the double. -/
theorem shortest_cases (n : ℕ) :
    (∃ coarser e finer m, gridExponents n = coarser ++ e :: finer ∧ onGrid? n e = some m ∧
      (∀ e' ∈ coarser, onGrid? n e' = none) ∧ shortest n = gridPoint m e) ∨
    (∀ e ∈ gridExponents n, onGrid? n e = none) ∧ shortest n = exact n := by
  unfold shortest
  cases hfind : (gridExponents n).findSome? fun e => (onGrid? n e).map (gridPoint · e) with
  | none =>
    rw [List.findSome?_eq_none_iff] at hfind
    exact .inr ⟨fun e he => Option.map_eq_none_iff.1 (hfind e he), rfl⟩
  | some d =>
    obtain ⟨coarser, e, finer, hsplit, hd, hcoarser⟩ := List.findSome?_eq_some_iff.1 hfind
    obtain ⟨m, hm, rfl⟩ := Option.map_eq_some_iff.1 hd
    exact .inl ⟨coarser, e, finer, m, hsplit, hm,
      fun e' he' => Option.map_eq_none_iff.1 (hcoarser e' he'), rfl⟩

theorem coeff_shortest_nonneg (n : ℕ) : 0 ≤ (shortest n).coeff := by
  rcases shortest_cases n with ⟨_, e, _, m, -, -, -, heq⟩ | ⟨-, heq⟩
  · rw [heq]
    exact Int.natCast_nonneg _
  · rw [heq]
    exact Int.natCast_nonneg _

theorem toRat_shortest_nonneg (n : ℕ) : 0 ≤ (shortest n).toRat :=
  not_lt.1 (mt Decimal.toRat_lt_zero_iff.1 (not_lt.2 (coeff_shortest_nonneg n)))

/-- The shortest decimal reads as the double. -/
theorem nearestIndex_shortest {n : ℕ} (hn : n ≤ infIndex) :
    nearestIndex (shortest n).toRat = n := by
  rcases shortest_cases n with ⟨_, e, _, m, -, hm, -, heq⟩ | ⟨-, heq⟩
  · rw [heq, toRat_gridPoint, ← ofScientific_eq]
    exact ofScientific_of_onGrid? hm
  · rw [heq, toRat_exact, nearestIndex_toRat hn]

/-- A decimal that reads as the double has at least as many places. -/
theorem places_shortest_le {n m k : ℕ} (hn : n ≤ infIndex) (h : ofScientific m (-k) = n) :
    (shortest n).places ≤ k := by
  obtain ⟨point, hpoint⟩ := exists_onGrid?_eq_some hn h
  rcases shortest_cases n with ⟨coarser, e, finer, m', hsplit, -, hnone, heq⟩ | ⟨hnone, heq⟩
  · rw [heq]
    show (-e).toNat ≤ k
    by_contra hlt
    have hfine := neg_lt_of_mem_gridExponents (n := n) (e := e) (by simp [hsplit])
    have hmem := neg_mem_gridExponents (n := n) (k := k) (by omega)
    have hsorted := pairwise_gridExponents n
    -- a coarser grid comes first, and has a point as well
    rw [hsplit] at hmem hsorted
    rcases List.mem_append.1 hmem with hmem | hmem
    · rw [hnone _ hmem] at hpoint
      cases hpoint
    · rcases List.mem_cons.1 hmem with hmem | hmem
      · omega
      · have := List.rel_of_pairwise_cons (List.pairwise_append.1 hsorted).2.1 hmem
        omega
  · rw [heq]
    show maxPrecision ≤ k
    by_contra hlt
    rw [hnone _ (neg_mem_gridExponents (not_le.1 hlt))] at hpoint
    cases hpoint

/-! ### Large doubles -/

/-- A double that needs places is small. -/
theorem toRat_shortest_lt {n : ℕ} (hn : n ≤ infIndex) (h : (shortest n).places ≠ 0) :
    (shortest n).toRat < 2 ^ 53 := by
  by_contra hle
  have hindex := nearestIndex_mono (by positivity) (not_lt.1 hle)
  rw [nearestIndex_shortest hn, ← toRat_two_pow 53, nearestIndex_toRat (by decide)] at hindex
  obtain hlt | ⟨shift, m, hm, hm', rfl⟩ := lt_or_exists_shift n
  · simp only [leadingBit] at hlt hindex
    omega
  have hshift : maxPrecision ≤ shift := by
    simp only [leadingBit, maxPrecision] at hm' hindex ⊢
    omega
  -- the double is a whole number
  have hwhole : toRat (shift * leadingBit + m) = (m * 2 ^ (shift - maxPrecision) : ℕ) := by
    rw [toRat, units_shift hm hm'.le, Nat.shiftLeft_eq, ← Nat.sub_add_cancel hshift,
      Nat.add_sub_cancel, pow_add, ← mul_assoc, Nat.cast_mul, Nat.cast_pow, Nat.cast_ofNat,
      mul_div_cancel_right₀ _ (by positivity)]
  refine h (Nat.le_zero.1 (places_shortest_le (m := m * 2 ^ (shift - maxPrecision)) hn ?_))
  rw [ofScientific_eq, ← hwhole, Nat.cast_zero, neg_zero, zpow_zero, mul_one, nearestIndex_toRat hn]

end PocketCalc.Binary64
