import PocketCalc.Binary64.Basic

/-!
# The order of doubles

The index numbers the doubles in increasing order: `units` is strictly monotone (`units_lt_units`).
A whole number of units lies between the double at its `floorIndex` and the next one
(`units_floorIndex_le`).
-/

namespace PocketCalc.Binary64

theorem units_of_lt {n : Nat} (h : n < leadingBit) : units n = n := if_pos h

/-- From `leadingBit <<< shift` units to twice as many, doubles are spaced `1 <<< shift` units. -/
theorem units_shift {shift m : Nat} (h : leadingBit ≤ m) (h' : m ≤ 2 * leadingBit) :
    units (shift * leadingBit + m) = m <<< shift := by
  have hn : ¬ shift * leadingBit + m < leadingBit := by omega
  rw [units, if_neg hn]
  simp only [leadingBit] at *
  rcases Nat.lt_or_eq_of_le h' with hlt | heq
  · have hdiv : (shift * 0x10000000000000 + m) / 0x10000000000000 - 1 = shift := by omega
    have hmod : 0x10000000000000 + (shift * 0x10000000000000 + m) % 0x10000000000000 = m := by
      omega
    rw [hdiv, hmod]
  · have hdiv : (shift * 0x10000000000000 + m) / 0x10000000000000 - 1 = shift + 1 := by omega
    have hmod : 0x10000000000000 + (shift * 0x10000000000000 + m) % 0x10000000000000 =
        0x10000000000000 := by omega
    rw [hdiv, hmod, heq, Nat.shiftLeft_succ, Nat.shiftLeft_eq, Nat.shiftLeft_eq, Nat.mul_assoc]

/-- An index is small, or splits into a shift and a significand of 53 bits. -/
theorem lt_or_exists_shift (n : Nat) :
    n < leadingBit ∨
      ∃ shift m, leadingBit ≤ m ∧ m < 2 * leadingBit ∧ n = shift * leadingBit + m := by
  rcases Nat.lt_or_ge n leadingBit with h | h
  · exact .inl h
  · simp only [leadingBit] at *
    exact .inr ⟨n / 0x10000000000000 - 1, 0x10000000000000 + n % 0x10000000000000, by omega,
      by omega, by omega⟩

theorem shiftLeft_lt_shiftLeft {m n : Nat} (h : m < n) (shift : Nat) :
    m <<< shift < n <<< shift := by
  rw [Nat.shiftLeft_eq, Nat.shiftLeft_eq]
  exact Nat.mul_lt_mul_of_pos_right h (Nat.two_pow_pos shift)

theorem units_lt_units_succ (n : Nat) : units n < units (n + 1) := by
  rcases lt_or_exists_shift n with h | ⟨shift, m, hm, hm', rfl⟩
  · rcases Nat.lt_or_ge (n + 1) leadingBit with h' | h'
    · rw [units_of_lt h, units_of_lt h']
      exact Nat.lt_succ_self n
    · have hn : n + 1 = 0 * leadingBit + leadingBit := by omega
      rw [units_of_lt h, hn, units_shift (Nat.le_refl _) (by decide)]
      exact h
  · rw [Nat.add_assoc, units_shift hm (Nat.le_of_lt hm'), units_shift (by omega) hm']
    exact shiftLeft_lt_shiftLeft (Nat.lt_succ_self m) shift

/-- A larger index is a larger double. -/
theorem units_lt_units {m n : Nat} (h : m < n) : units m < units n := by
  induction n with
  | zero => omega
  | succ n ih =>
    rcases Nat.lt_or_eq_of_le (Nat.le_of_lt_succ h) with h | rfl
    · exact Nat.lt_trans (ih h) (units_lt_units_succ n)
    · exact units_lt_units_succ m

theorem units_le_units_iff {m n : Nat} : units m ≤ units n ↔ m ≤ n := by
  constructor
  · intro h
    apply Nat.le_of_not_lt
    intro h'
    have := units_lt_units h'
    omega
  · intro h
    rcases Nat.lt_or_eq_of_le h with h | rfl
    · exact Nat.le_of_lt (units_lt_units h)
    · exact Nat.le_refl _

/-- Leaving out all bits but the first 53 leaves a significand. -/
theorem leadingBit_le_shiftRight {x : Nat} (h : leadingBit ≤ x) :
    leadingBit ≤ x >>> (x.log2 - 52) ∧ x >>> (x.log2 - 52) < 2 * leadingBit := by
  have hx : x ≠ 0 := by
    simp only [leadingBit] at h
    omega
  have hlog : 52 ≤ x.log2 := (Nat.le_log2 hx).2 h
  have hpos := Nat.two_pow_pos (x.log2 - 52)
  have hlow := Nat.log2_self_le hx
  have hhigh := Nat.lt_log2_self (n := x)
  rw [Nat.shiftRight_eq_div_pow, Nat.le_div_iff_mul_le hpos, Nat.div_lt_iff_lt_mul hpos]
  constructor
  · refine Nat.le_trans (Nat.le_of_eq ?_) hlow
    rw [show leadingBit = 2 ^ 52 from rfl, ← Nat.pow_add]
    congr 1
    omega
  · refine Nat.lt_of_lt_of_eq hhigh ?_
    rw [show 2 * leadingBit = 2 ^ 53 from rfl, ← Nat.pow_add]
    congr 1
    omega

/-- The double at `floorIndex x` is at most `x` units, and the next one is more. -/
theorem units_floorIndex_le (x : Nat) :
    units (floorIndex x) ≤ x ∧ x < units (floorIndex x + 1) := by
  simp only [floorIndex]
  rcases Nat.lt_or_ge x leadingBit with h | h
  · have hlog : x.log2 - 52 = 0 := by
      rcases Nat.eq_zero_or_pos x with rfl | hx
      · rfl
      · have : x.log2 < 52 := (Nat.log2_lt (Nat.ne_of_gt hx)).2 h
        omega
    have hn : (x.log2 - 52) * leadingBit + x >>> (x.log2 - 52) = x := by simp [hlog]
    have hsucc := units_lt_units_succ x
    rw [hn]
    rw [units_of_lt h] at hsucc ⊢
    exact ⟨Nat.le_refl x, hsucc⟩
  · obtain ⟨hm, hm'⟩ := leadingBit_le_shiftRight h
    have hpos := Nat.two_pow_pos (x.log2 - 52)
    rw [Nat.add_assoc, units_shift hm (Nat.le_of_lt hm'), units_shift (by omega) hm',
      Nat.shiftLeft_eq, Nat.shiftLeft_eq, Nat.shiftRight_eq_div_pow]
    refine ⟨Nat.div_mul_le_self x _, ?_⟩
    exact (Nat.div_lt_iff_lt_mul hpos).1 (Nat.lt_succ_self _)

end PocketCalc.Binary64
