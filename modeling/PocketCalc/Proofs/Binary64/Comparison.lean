import PocketCalc.Binary64.Bits

/-!
# Comparing doubles

A finite double is a sign, an exponent and a significand, and core compares these one after the
other.  The index orders doubles without a sign in the same way (`compare_exponent_then`): hence a
finite double is at most another one exactly if its index, taken with its sign, is at most that of
the other (`le_iff_rank_le`).
-/

namespace PocketCalc.Binary64

open Float.Model Float.Model.UnpackedFloat

/-- The place of a double in the order of the finite doubles: its index with its sign.  Both zeros
have the place zero. -/
def rank (v : Float) : ℤ := if isNegative v then -(index v : ℤ) else index v

theorem index_le_of_isFinite {v : Float} (hv : isFinite v = true) : index v ≤ infIndex :=
  Nat.le_of_lt (of_decide_eq_true hv)

/-! ### Exponent and significand -/

/-- The exponent of the double with index `n`. -/
def exponent (n : ℕ) : ℤ := if n < leadingBit then -1074 else n / leadingBit - 1075

/-- The significand of the double with index `n`, with the bit that the bit pattern leaves out. -/
def significand (n : ℕ) : ℕ := if n < leadingBit then n else leadingBit + n % leadingBit

theorem significand_pos {n : ℕ} (h : n ≠ 0) : 0 < significand n := by
  unfold significand
  split
  · exact Nat.pos_of_ne_zero h
  · exact Nat.add_pos_left (by decide) _

/-- A larger index has a larger exponent, or the same one and a larger significand. -/
theorem exponent_lt_or_significand_lt {m n : ℕ} (h : m < n) :
    exponent m < exponent n ∨ exponent m = exponent n ∧ significand m < significand n := by
  unfold exponent significand
  by_cases hn : n < leadingBit
  · rw [if_pos (h.trans hn), if_pos (h.trans hn), if_pos hn, if_pos hn]
    exact .inr ⟨rfl, h⟩
  · rw [if_neg hn, if_neg hn]
    by_cases hm : m < leadingBit
    · rw [if_pos hm, if_pos hm]
      simp only [leadingBit] at *
      omega
    · rw [if_neg hm, if_neg hm]
      simp only [leadingBit] at *
      omega

/-- Exponents and then significands are in the order of the indices. -/
theorem compare_exponent_then (m n : ℕ) :
    (compare (exponent m) (exponent n)).then (compare (significand m) (significand n)) =
      compare m n := by
  rcases lt_trichotomy m n with h | rfl | h
  · rw [compare_lt_iff_lt.2 h]
    rcases exponent_lt_or_significand_lt h with he | ⟨he, hs⟩
    · rw [compare_lt_iff_lt.2 he]
      rfl
    · rw [compare_eq_iff_eq.2 he, compare_lt_iff_lt.2 hs]
      rfl
  · rw [compare_eq_iff_eq.2 rfl, compare_eq_iff_eq.2 rfl, compare_eq_iff_eq.2 rfl]
    rfl
  · rw [compare_gt_iff_gt.2 h]
    rcases exponent_lt_or_significand_lt h with he | ⟨he, hs⟩
    · rw [compare_gt_iff_gt.2 he]
      rfl
    · rw [compare_eq_iff_eq.2 he.symm, compare_gt_iff_gt.2 hs]
      rfl

/-! ### The parts of a bit pattern -/

/-- The sign of a double as core has it. -/
def signOf (negative : Bool) : UnpackedFloat.Sign := if negative then .negative else .positive

variable {n : ℕ}

theorem unpackSign_ofIndex (negative : Bool) (hn : n ≤ infIndex) :
    Sign.ofBitVec (@unpackSign Format.binary64 (ofIndex negative n).toBits.toBitVec) =
      signOf negative := by
  have hbits : (ofIndex negative n).toBits.toBitVec.toNat = _ := toNat_toBits_ofIndex negative hn
  have hsign := toNat_unpackSign (ofIndex negative n).toBits.toBitVec
  rw [hbits] at hsign
  simp only [infIndex, signBit] at hn hsign
  cases negative
  · have hbit : @unpackSign Format.binary64 (ofIndex false n).toBits.toBitVec = 0#1 := by
      refine BitVec.eq_of_toNat_eq (hsign.trans ?_)
      rw [if_neg Bool.false_ne_true]
      exact Nat.div_eq_of_lt (by omega)
    rw [hbit]
    rfl
  · have hbit : @unpackSign Format.binary64 (ofIndex true n).toBits.toBitVec = 1#1 := by
      refine BitVec.eq_of_toNat_eq (hsign.trans ?_)
      rw [if_pos rfl, Nat.add_div_left n (by decide), Nat.div_eq_of_lt (by omega)]
      rfl
    rw [hbit]
    rfl

theorem unpackFields_ofIndex (negative : Bool) (hn : n ≤ infIndex) :
    (@unpackExponent Format.binary64 (ofIndex negative n).toBits.toBitVec).toNat =
        n / leadingBit ∧
      (@unpackMantissa Format.binary64 (ofIndex negative n).toBits.toBitVec).toNat =
        n % leadingBit := by
  have hbits : (ofIndex negative n).toBits.toBitVec.toNat = _ := toNat_toBits_ofIndex negative hn
  rw [toNat_unpackExponent, toNat_unpackMantissa, hbits]
  simp only [infIndex, signBit, leadingBit] at *
  split <;> omega

/-- A finite double is made of its sign, its exponent and its significand. -/
theorem unpack_ofIndex (negative : Bool) (hn : n < infIndex) :
    UnpackedFloat.unpack Format.binary64 (ofIndex negative n).toBits.toBitVec =
      if h : n = 0 then .zero (signOf negative)
      else .finite (signOf negative) (significand n) (exponent n) (significand_pos h) := by
  obtain ⟨hexponent, hmantissa⟩ := unpackFields_ofIndex negative hn.le
  have hsign := unpackSign_ofIndex negative hn.le
  generalize (ofIndex negative n).toBits.toBitVec = b at hexponent hmantissa hsign ⊢
  have hbias : (Format.binary64.exponentBias : ℤ) +
      (Format.binary64.mantissaBitsWithoutImplicit : ℤ) = 1075 := rfl
  have hlast : @unpackExponent Format.binary64 b ≠ -1#11 := by
    intro h
    have h2047 : n / leadingBit = 2047 := hexponent.symm.trans (congrArg BitVec.toNat h)
    simp only [infIndex, leadingBit] at hn h2047
    omega
  have hfirst : @unpackExponent Format.binary64 b = 0#11 ↔ n < leadingBit := by
    rw [← BitVec.toNat_inj]
    exact (Eq.congr_left hexponent).trans (Nat.div_eq_zero_iff_lt (by decide))
  have hnone : @unpackMantissa Format.binary64 b = 0#52 ↔ n % leadingBit = 0 := by
    rw [← BitVec.toNat_inj]
    exact Eq.congr_left hmantissa
  have happend : (1#1 ++ @unpackMantissa Format.binary64 b).toNat =
      leadingBit + n % leadingBit := by
    rw [BitVec.toNat_append, ← Nat.shiftLeft_add_eq_or_of_lt (BitVec.isLt _), hmantissa]
    rfl
  simp only [UnpackedFloat.unpack, hsign, exponent, significand]
  rw [if_neg hlast]
  by_cases hsmall : n < leadingBit
  · rw [Nat.mod_eq_of_lt hsmall] at hnone hmantissa
    rw [if_pos (hfirst.2 hsmall)]
    by_cases hzero : n = 0
    · rw [dif_pos (hnone.2 hzero), dif_pos hzero]
    · rw [dif_neg (mt hnone.1 hzero), dif_neg hzero]
      simp only [hfirst.2 hsmall, hmantissa, hbias, if_pos hsmall]
      rfl
  · have hzero : n ≠ 0 := by
      rintro rfl
      exact hsmall (by decide)
    rw [if_neg (mt hfirst.1 hsmall), dif_neg hzero]
    simp only [happend, hexponent, hbias, if_neg hsmall]
    rfl

/-! ### The order -/

theorem ofIndex_le_ofIndex_iff (a b : Bool) {m n : ℕ} (hm : m < infIndex) (hn : n < infIndex) :
    ofIndex a m ≤ ofIndex b n ↔
      (if a then -(m : ℤ) else m) ≤ if b then -(n : ℤ) else n := by
  have hle : ofIndex a m ≤ ofIndex b n ↔
      ((UnpackedFloat.unpack Format.binary64 (ofIndex a m).toBits.toBitVec).compare
        (UnpackedFloat.unpack Format.binary64 (ofIndex b n).toBits.toBitVec)).any (·.isLE) =
          true := by
    show decide _ = true ↔ _
    rw [decide_eq_true_eq]
    exact Iff.rfl
  rw [hle, unpack_ofIndex a hm, unpack_ofIndex b hn]
  by_cases hm0 : m = 0
  · by_cases hn0 : n = 0
    · cases a <;> cases b <;> simp [hm0, hn0, UnpackedFloat.compare]
    · cases a <;> cases b <;> simp [hm0, hn0, UnpackedFloat.compare, signOf]
  · by_cases hn0 : n = 0
    · cases a <;> cases b <;> simp [hm0, hn0, UnpackedFloat.compare, signOf]
    · rw [dif_neg hm0, dif_neg hn0]
      cases a
      · cases b
        · show ((compare _ _).then (compare _ _)).isLE = true ↔ _
          rw [compare_exponent_then, Nat.isLE_compare]
          exact Int.ofNat_le.symm
        · refine iff_of_false (fun h => by cases h) ?_
          simp only [if_true, if_neg Bool.false_ne_true]
          omega
      · cases b
        · refine iff_of_true rfl ?_
          simp only [if_true, if_neg Bool.false_ne_true]
          omega
        · show ((compare _ _).then (compare _ _)).swap.isLE = true ↔ _
          rw [compare_exponent_then, Nat.compare_swap, Nat.isLE_compare]
          simp

/-- **Finite doubles are ordered by index and sign.** -/
theorem le_iff_rank_le {v w : Float} (hv : isFinite v = true) (hw : isFinite w = true) :
    v ≤ w ↔ rank v ≤ rank w := by
  have hle := ofIndex_le_ofIndex_iff (isNegative v) (isNegative w) (of_decide_eq_true hv)
    (of_decide_eq_true hw)
  rwa [ofIndex_index, ofIndex_index] at hle

/-! ### Equality -/

theorem ofIndex_false_zero : ofIndex false 0 = 0 := rfl

theorem ofIndex_true_zero : ofIndex true 0 = -0 := rfl

theorem ne_nan_of_isFinite {v : Float} (hv : isFinite v = true) : v ≠ Float.nan := by
  rintro rfl
  have hnan : isFinite Float.nan = false := by decide +kernel
  rw [hnan] at hv
  cases hv

/-- **Finite doubles are equal if they are the same, or both zeros.** -/
theorem beq_iff_rank_eq {v w : Float} (hv : isFinite v = true) (hw : isFinite w = true) :
    (v == w) = true ↔ rank v = rank w := by
  rw [Float.beq_iff_ne_nan_and_eq]
  constructor
  · rintro ⟨-, -, rfl | ⟨rfl, rfl⟩ | ⟨rfl, rfl⟩⟩
    · rfl
    · decide +kernel
    · decide +kernel
  · intro h
    refine ⟨ne_nan_of_isFinite hv, ne_nan_of_isFinite hw, ?_⟩
    rw [← ofIndex_index v, ← ofIndex_index w]
    revert h
    unfold rank
    generalize isNegative v = a, isNegative w = b, index v = m, index w = n
    intro h
    cases a
    · cases b
      · rw [Int.ofNat_inj.1 h]
        exact .inl rfl
      · obtain ⟨rfl, rfl⟩ : m = 0 ∧ n = 0 := by
          simp only [if_true, if_neg Bool.false_ne_true] at h
          omega
        exact .inr (.inl ⟨ofIndex_false_zero, ofIndex_true_zero⟩)
    · cases b
      · obtain ⟨rfl, rfl⟩ : m = 0 ∧ n = 0 := by
          simp only [if_true, if_neg Bool.false_ne_true] at h
          omega
        exact .inr (.inr ⟨ofIndex_true_zero, ofIndex_false_zero⟩)
      · rw [Int.ofNat_inj.1 (Int.neg_inj.1 h)]
        exact .inl rfl

theorem beq_zero_iff {v : Float} (hv : isFinite v = true) : (v == 0) = true ↔ index v = 0 := by
  have hzero : isFinite 0 = true ∧ rank 0 = 0 := by decide +kernel
  rw [beq_iff_rank_eq hv hzero.1, hzero.2, rank]
  split <;> omega

end PocketCalc.Binary64
