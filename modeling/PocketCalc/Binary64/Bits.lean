import Mathlib
import PocketCalc.Binary64.Basic

/-!
# Sign and index of a double

A double other than NaN is its sign and its index, and nothing else (`ofIndex_index`): both can be
chosen freely (`index_ofIndex`, `isNegative_ofIndex`), the minus sign changes the sign alone
(`neg_ofIndex`), and the absolute value takes it off (`abs_eq_ofIndex`).  What is not finite is
infinite or a NaN (`isFinite_eq_false_iff`).
-/

namespace PocketCalc.Binary64

open Float.Model Float.Model.UnpackedFloat

/-! ### Bit patterns that are no NaN -/

theorem toNat_unpackMantissa (b : BitVec 64) :
    (@unpackMantissa Format.binary64 b).toNat = b.toNat % leadingBit := by
  simp [unpackMantissa, leadingBit]

theorem toNat_unpackExponent (b : BitVec 64) :
    (@unpackExponent Format.binary64 b).toNat = b.toNat / leadingBit % 2048 := by
  simp [unpackExponent, Nat.shiftRight_eq_div_pow, leadingBit]

theorem toNat_unpackSign (b : BitVec 64) :
    (@unpackSign Format.binary64 b).toNat = b.toNat / signBit := by
  have hb := b.isLt
  simp [unpackSign, Nat.shiftRight_eq_div_pow, signBit]
  omega

theorem isNaNBits_eq_false {b : BitVec 64} (hb : b.toNat % signBit ≤ infIndex) :
    @isNaNBits Format.binary64 b = false := by
  have he := toNat_unpackExponent b
  have hm := toNat_unpackMantissa b
  simp only [infIndex, signBit, leadingBit] at *
  rw [isNaNBits, decide_eq_false_iff_not]
  rintro ⟨hinf, hne⟩
  apply hne
  have h2047 := (congrArg BitVec.toNat hinf).trans (show (-1#11).toNat = 2047 from rfl)
  apply BitVec.eq_of_toNat_eq
  exact hm.trans (by omega : b.toNat % 0x10000000000000 = 0)

/-- Packing gives back a bit pattern that was unpacked. -/
theorem pack_unpack_of_le {b : BitVec 64} (hb : b.toNat % signBit ≤ infIndex) :
    UnpackedFloat.pack Format.binary64 (UnpackedFloat.unpack Format.binary64 b) = b := by
  have h := @UnpackedFloat.pack_unpack Format.binary64 b (by decide)
  rwa [isNaNBits_eq_false hb, if_neg Bool.false_ne_true] at h

theorem unpackExponent_eq {b c : BitVec 64} (h : b.toNat % signBit = c.toNat % signBit) :
    @unpackExponent Format.binary64 b = @unpackExponent Format.binary64 c := by
  apply BitVec.eq_of_toNat_eq
  rw [toNat_unpackExponent, toNat_unpackExponent]
  simp only [signBit, leadingBit] at *
  omega

theorem unpackMantissa_eq {b c : BitVec 64} (h : b.toNat % signBit = c.toNat % signBit) :
    @unpackMantissa Format.binary64 b = @unpackMantissa Format.binary64 c := by
  apply BitVec.eq_of_toNat_eq
  rw [toNat_unpackMantissa, toNat_unpackMantissa]
  simp only [signBit, leadingBit] at *
  omega

/-- The bit pattern with the other sign bit unpacks to the same with the other sign. -/
theorem unpack_eq_neg {b c : BitVec 64} (hmod : b.toNat % signBit = c.toNat % signBit)
    (hdiv : b.toNat / signBit = 1 - c.toNat / signBit) :
    UnpackedFloat.unpack Format.binary64 b = (UnpackedFloat.unpack Format.binary64 c).neg := by
  have hsign : @unpackSign Format.binary64 b = ~~~@unpackSign Format.binary64 c := by
    have hc := c.isLt
    apply BitVec.eq_of_toNat_eq
    rw [BitVec.toNat_not, toNat_unpackSign, toNat_unpackSign]
    simp only [signBit] at *
    omega
  have hneg (s : BitVec 1) : Sign.ofBitVec (~~~s) = -Sign.ofBitVec s := by
    have hs : s = 0#1 ∨ s = 1#1 := by revert s; decide
    rcases hs with rfl | rfl <;> rfl
  simp only [UnpackedFloat.unpack, unpackExponent_eq hmod, unpackMantissa_eq hmod, hsign, hneg]
  split
  · split <;> rfl
  · split
    · split <;> rfl
    · rfl

/-- The bit pattern with the sign bit taken off unpacks to the same without a sign. -/
theorem unpack_eq_abs {b c : BitVec 64} (hmod : b.toNat % signBit = c.toNat % signBit)
    (hdiv : b.toNat / signBit = 0) :
    UnpackedFloat.unpack Format.binary64 b = (UnpackedFloat.unpack Format.binary64 c).abs := by
  have hsign : @unpackSign Format.binary64 b = 0#1 := by
    apply BitVec.eq_of_toNat_eq
    rw [toNat_unpackSign, hdiv]
    rfl
  have hpositive : Sign.ofBitVec 0#1 = .positive := rfl
  simp only [UnpackedFloat.unpack, unpackExponent_eq hmod, unpackMantissa_eq hmod, hsign, hpositive]
  split
  · split <;> rfl
  · split
    · split <;> rfl
    · rfl

/-! ### Sign and index -/

theorem index_lt (v : Float) : index v < signBit := Nat.mod_lt _ (by decide)

theorem toNat_toBits_ofIndex (negative : Bool) {n : Nat} (hn : n ≤ infIndex) :
    (ofIndex negative n).toBits.toNat = if negative then signBit + n else n := by
  simp only [infIndex] at hn
  have hbits : (UInt64.ofNat (if negative then signBit + n else n)).toBitVec.toNat =
      if negative then signBit + n else n := by
    simp only [signBit]
    refine Nat.mod_eq_of_lt ?_
    split <;> omega
  have hmod : (UInt64.ofNat (if negative then signBit + n else n)).toBitVec.toNat % signBit ≤
      infIndex := by
    rw [hbits]
    simp only [infIndex, signBit]
    split <;> omega
  exact (congrArg BitVec.toNat (pack_unpack_of_le hmod)).trans hbits

@[simp] theorem index_ofIndex (negative : Bool) {n : Nat} (hn : n ≤ infIndex) :
    index (ofIndex negative n) = n := by
  rw [index, toNat_toBits_ofIndex negative hn]
  simp only [infIndex, signBit] at *
  split <;> omega

@[simp] theorem isNegative_ofIndex (negative : Bool) {n : Nat} (hn : n ≤ infIndex) :
    isNegative (ofIndex negative n) = negative := by
  rw [isNegative, toNat_toBits_ofIndex negative hn]
  simp only [infIndex, signBit] at *
  cases negative
  · simp only [Bool.false_eq_true, if_false, decide_eq_false_iff_not]
    omega
  · simp

/-- A double is its sign and its index. -/
theorem ofIndex_index (v : Float) : ofIndex (isNegative v) (index v) = v := by
  have hv := v.toBits.toNat_lt
  have hbits : (if isNegative v then signBit + index v else index v) = v.toBits.toNat := by
    by_cases hneg : signBit ≤ v.toBits.toNat
    · rw [isNegative, decide_eq_true hneg, if_pos rfl, index]
      simp only [signBit] at *
      omega
    · rw [isNegative, decide_eq_false hneg, if_neg Bool.false_ne_true, index]
      simp only [signBit] at *
      omega
  rw [ofIndex, hbits, UInt64.ofNat_toNat, Float.ofBits_toBits]

/-- The minus sign changes the sign alone. -/
theorem neg_ofIndex (negative : Bool) {n : Nat} (hn : n ≤ infIndex) :
    -ofIndex negative n = ofIndex (!negative) n := by
  have hbits := toNat_toBits_ofIndex negative hn
  have hbits' := toNat_toBits_ofIndex (!negative) hn
  simp only [infIndex] at hn
  have hneg : UnpackedFloat.unpack Format.binary64 (ofIndex (!negative) n).toBits.toBitVec =
      (UnpackedFloat.unpack Format.binary64 (ofIndex negative n).toBits.toBitVec).neg := by
    apply unpack_eq_neg <;>
      simp only [UInt64.toNat_toBitVec, hbits, hbits', signBit] <;>
      cases negative <;> simp only [Bool.not_true, Bool.not_false, if_true, if_false,
        Bool.false_eq_true] <;> omega
  rw [← Float.toBits_inj, ← UInt64.toBitVec_inj]
  refine (congrArg (UnpackedFloat.pack Format.binary64) hneg.symm).trans (pack_unpack_of_le ?_)
  simp only [UInt64.toNat_toBitVec, hbits', infIndex, signBit]
  split <;> omega

/-- A double without its sign. -/
theorem abs_eq_ofIndex {v : Float} (hv : index v ≤ infIndex) : v.abs = ofIndex false (index v) := by
  have hbits := toNat_toBits_ofIndex false hv
  have hlt := index_lt v
  have habs : UnpackedFloat.unpack Format.binary64 (ofIndex false (index v)).toBits.toBitVec =
      (UnpackedFloat.unpack Format.binary64 v.toBits.toBitVec).abs := by
    apply unpack_eq_abs
    · rw [UInt64.toNat_toBitVec, hbits, if_neg Bool.false_ne_true, Nat.mod_eq_of_lt hlt]
      rfl
    · rw [UInt64.toNat_toBitVec, hbits, if_neg Bool.false_ne_true, Nat.div_eq_of_lt hlt]
  rw [← Float.toBits_inj, ← UInt64.toBitVec_inj]
  refine (congrArg (UnpackedFloat.pack Format.binary64) habs.symm).trans (pack_unpack_of_le ?_)
  rw [UInt64.toNat_toBitVec, hbits, if_neg Bool.false_ne_true, Nat.mod_eq_of_lt hlt]
  exact hv

/-! ### Infinities and NaN -/

/-- All exponent bits are set in an infinity and in a NaN. -/
theorem unpackExponent_eq_neg_one_iff (v : Float) :
    @unpackExponent Format.binary64 v.toBits.toBitVec = -1#11 ↔ isFinite v = false := by
  have he := toNat_unpackExponent v.toBits.toBitVec
  have hv := v.toBits.toNat_lt
  have h2047 : (-1#11).toNat = 2047 := rfl
  rw [← BitVec.toNat_inj, h2047, isFinite, decide_eq_false_iff_not, index]
  refine (Eq.congr_left he).trans ?_
  rw [UInt64.toNat_toBitVec]
  simp only [infIndex, signBit, leadingBit] at *
  omega

/-- What is not finite is infinite or a NaN. -/
theorem isFinite_eq_false_iff (v : Float) :
    isFinite v = false ↔ v.isInf = true ∨ v.isNaN = true := by
  rw [← unpackExponent_eq_neg_one_iff]
  show _ ↔ (UnpackedFloat.unpack Format.binary64 v.toBits.toBitVec).isInf = true ∨
    (UnpackedFloat.unpack Format.binary64 v.toBits.toBitVec).isNaN = true
  generalize v.toBits.toBitVec = b
  simp only [UnpackedFloat.unpack]
  constructor
  · intro h
    rw [if_pos h]
    split
    · exact .inl rfl
    · exact .inr rfl
  · intro h
    by_contra hne
    rw [if_neg hne] at h
    split at h
    · split at h <;> rcases h with h | h <;> cases h
    · rcases h with h | h <;> cases h

end PocketCalc.Binary64
