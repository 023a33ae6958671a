import PocketCalc.Binary64.Bits
import PocketCalc.Proofs.Binary64.Shortest
import PocketCalc.Proofs.Decimal.Text
import PocketCalc.Readout

/-!
# A readout is its own readout

A readout is made by rounding twice.  What is rounded the second time is a double that a decimal
with few enough places reads as.  Its shortest decimal therefore has no more places, and the second
rounding changes nothing: the text reads as a double with that same decimal (`toDecimal_toFloat`).
Reading and showing it again gives the same text (`readout_toFloat`).

Main statements: `readout_toFloat`, `exists_readout_fixed`.
-/

namespace PocketCalc

open Binary64

/-! ### Reading a decimal -/

namespace Decimal

theorem index_toFloat (d : Decimal) : index d.toFloat = nearestIndex |d.toRat| := by
  rw [toFloat, ofScientific_eq, index_ofIndex _ (nearestIndex_le _), abs_toRat]

theorem isNegative_toFloat (d : Decimal) : isNegative d.toFloat = decide (d.toRat < 0) := by
  rw [toFloat, ofScientific_eq, isNegative_ofIndex _ (nearestIndex_le _)]
  simp only [toRat_lt_zero_iff]

end Decimal

theorem abs_toRat_toDecimal (v : Float) :
    |(toDecimal v).toRat| = (shortest (index v)).toRat := by
  unfold toDecimal
  split
  · rw [Decimal.toRat_neg, abs_neg, abs_of_nonneg (toRat_shortest_nonneg _)]
  · exact abs_of_nonneg (toRat_shortest_nonneg _)

theorem places_toDecimal (v : Float) : (toDecimal v).places = (shortest (index v)).places := by
  unfold toDecimal
  split
  · exact Decimal.places_neg _
  · rfl

variable {v : Float} {d : Decimal}

theorem index_toFloat_of_toRat_eq (hv : index v ≤ infIndex) (h : d.toRat = (toDecimal v).toRat) :
    index d.toFloat = index v := by
  rw [d.index_toFloat, h, abs_toRat_toDecimal, nearestIndex_shortest hv]

/-- A decimal that is the same number as the shortest decimal of a double reads as a double with
this shortest decimal.  It is the same double but for a zero that has lost its sign. -/
theorem toDecimal_toFloat (hv : index v ≤ infIndex) (h : d.toRat = (toDecimal v).toRat) :
    toDecimal d.toFloat = toDecimal v := by
  have hindex := index_toFloat_of_toRat_eq hv h
  have hsign := d.isNegative_toFloat
  have hnonneg := coeff_shortest_nonneg (index v)
  simp only [h, Decimal.toRat_lt_zero_iff] at hsign
  rw [toDecimal, hsign, hindex]
  unfold toDecimal
  by_cases hneg : isNegative v = true
  · rw [if_pos hneg]
    by_cases hzero : (shortest (index v)).coeff = 0
    · rw [Decimal.neg_of_coeff_eq_zero hzero, ite_self]
    · have hlt : (shortest (index v)).neg.coeff < 0 := by
        simp only [Decimal.neg]
        omega
      rw [if_pos (decide_eq_true hlt)]
  · simp [hneg, hnonneg]

/-- A decimal reads as a double whose shortest decimal has no more places. -/
theorem places_toDecimal_toFloat_le (d : Decimal) : (toDecimal d.toFloat).places ≤ d.places := by
  rw [places_toDecimal, d.index_toFloat]
  refine places_shortest_le (m := d.coeff.natAbs) (nearestIndex_le _) ?_
  rw [ofScientific_eq, d.abs_toRat]

/-! ### Rounded decimals -/

/-- The decimal that a value is rounded to. -/
def roundedDecimal (places : ℕ) (v : Float) : Decimal := ((toDecimal v).round places).trim

theorem roundedText_eq (places : ℕ) (v : Float) :
    roundedText places v = (roundedDecimal places v).text := rfl

theorem places_roundedDecimal_le (places : ℕ) (v : Float) :
    (roundedDecimal places v).places ≤ places :=
  Decimal.places_trimmed_le _ _

theorem toRat_roundedDecimal {places : ℕ} (h : (toDecimal v).places ≤ places) :
    (roundedDecimal places v).toRat = (toDecimal v).toRat := by
  rw [roundedDecimal, Decimal.toRat_trim, Decimal.toRat_round_of_le h]

/-- Rounding does not make a double infinite. -/
theorem isFinite_toFloat_roundedDecimal (hv : isFinite v = true) (places : ℕ) :
    isFinite (roundedDecimal places v).toFloat = true := by
  have hindex : index v < infIndex := of_decide_eq_true hv
  refine decide_eq_true ?_
  by_cases hplaces : (toDecimal v).places ≤ places
  · rwa [index_toFloat_of_toRat_eq hindex.le (toRat_roundedDecimal hplaces)]
  · -- a double with places is far from the largest one
    have hsmall : |(toDecimal v).toRat| < 2 ^ 53 := by
      rw [abs_toRat_toDecimal]
      refine toRat_shortest_lt hindex.le ?_
      rw [← places_toDecimal]
      omega
    have hround := (toDecimal v).abs_toRat_round_le places
    have hbound : |(roundedDecimal places v).toRat| ≤
        toRat ((54 + 1022) * leadingBit + leadingBit) := by
      rw [roundedDecimal, Decimal.toRat_trim, toRat_two_pow]
      linarith
    rw [Decimal.index_toFloat]
    refine (nearestIndex_mono (abs_nonneg _) hbound).trans_lt ?_
    rw [nearestIndex_toRat (by decide)]
    decide

/-! ### Readouts -/

theorem readout_eq_ok_iff {places : ℕ} {t : List Char} :
    readout v places = .ok t ↔
      isFinite v = true ∧ t = roundedText places (roundedDecimal places v).toFloat := by
  unfold readout
  rw [roundedText_eq, Decimal.read?_text]
  by_cases hfin : isFinite v = true
  · simp [hfin, eq_comm]
  · simp [hfin]

theorem readout_eq_error_iff {places : ℕ} {error : FormatError} :
    readout v places = .error error ↔ isFinite v = false ∧ error = .notFinite v := by
  unfold readout
  rw [roundedText_eq, Decimal.read?_text]
  by_cases hfin : isFinite v = true
  · simp [hfin]
  · simp [hfin, eq_comm]

/-- **A readout is the text of a decimal, and read as a double it has itself as readout.** -/
theorem readout_toFloat {places : ℕ} {t : List Char} (h : readout v places = .ok t) :
    ∃ d : Decimal, t = d.text ∧ readout d.toFloat places = .ok t := by
  obtain ⟨hfin, rfl⟩ := readout_eq_ok_iff.1 h
  have hw := isFinite_toFloat_roundedDecimal hfin places
  have hplaces := (places_toDecimal_toFloat_le _).trans (places_roundedDecimal_le places v)
  generalize (roundedDecimal places v).toFloat = w at hw hplaces ⊢
  have hindex : index w < infIndex := of_decide_eq_true hw
  -- the second rounding changes nothing, nor does reading and rounding again
  have hdecimal := toDecimal_toFloat hindex.le (toRat_roundedDecimal hplaces)
  have hrounded :
      roundedDecimal places (roundedDecimal places w).toFloat = roundedDecimal places w := by
    rw [roundedDecimal, hdecimal]
    rfl
  refine ⟨roundedDecimal places w, rfl, readout_eq_ok_iff.2 ⟨?_, ?_⟩⟩
  · exact isFinite_toFloat_roundedDecimal hw places
  · rw [hrounded, roundedText_eq, roundedText_eq, hrounded]

/-- **A finite double has a readout, and this readout reads as a finite double with the same
readout.**  Two roundings are enough whatever the number of places. -/
theorem exists_readout_fixed (hv : isFinite v = true) (places : ℕ) :
    ∃ t w, readout v places = .ok t ∧ Numeral.read? t = some w ∧ isFinite w = true ∧
      readout w places = .ok t := by
  have hreadout : readout v places = .ok _ := readout_eq_ok_iff.2 ⟨hv, rfl⟩
  obtain ⟨d, htext, hagain⟩ := readout_toFloat hreadout
  refine ⟨_, d.toFloat, hreadout, ?_, (readout_eq_ok_iff.1 hagain).1, hagain⟩
  rw [htext, d.read?_text]

/-- The double before `2 ^ -555`, with its sign changed, is one of those that need the second
rounding: to 183 places its shortest decimal is rounded to a text that reads as the next double. -/
theorem exists_readout_fixed_second_rounding :
    isFinite (ofIndex true 0x1D3FFFFFFFFFFFFF) = true ∧
    ∃ t w, readout (ofIndex true 0x1D3FFFFFFFFFFFFF) 183 = .ok t ∧
      t ≠ roundedText 183 (ofIndex true 0x1D3FFFFFFFFFFFFF) ∧ Numeral.read? t = some w ∧
      isFinite w = true ∧ readout w 183 = .ok t := by
  have hv : isFinite (ofIndex true 0x1D3FFFFFFFFFFFFF) = true := by decide +kernel
  have hsecond : roundedText 183 (roundedDecimal 183 (ofIndex true 0x1D3FFFFFFFFFFFFF)).toFloat ≠
      roundedText 183 (ofIndex true 0x1D3FFFFFFFFFFFFF) := by
    decide +kernel
  obtain ⟨t, w, hreadout, hread, hw, hagain⟩ := exists_readout_fixed hv 183
  refine ⟨hv, t, w, hreadout, ?_, hread, hw, hagain⟩
  rwa [(readout_eq_ok_iff.1 hreadout).2]

end PocketCalc
