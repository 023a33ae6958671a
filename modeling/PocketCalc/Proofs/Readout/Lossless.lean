import PocketCalc.Proofs.Binary64.Comparison
import PocketCalc.Proofs.Decimal.Canonical
import PocketCalc.Proofs.Readout.Exact

/-!
# Readouts with places enough lose nothing

A shortest decimal has no zero at the end of its places, since without it the decimal would be
shorter and read as the same double (`isTrimmed_shortest`).  Decimals without such zeros are the
same if they are the same number (`IsTrimmed.eq_of_toRat_eq`).  With at least as many places as the
shortest decimal has, rounding keeps the number, and therefore the decimal
(`roundedDecimal_eq_toDecimal`): the readout is the text of the double, and it reads as this double.

Main statement: `readout_eq_text`.
-/

namespace PocketCalc

open Binary64

/-! ### Decimals without zeros at their end -/

namespace Decimal

variable {d e : Decimal}

theorem mul_tenPow_of_toRat_eq (h : d.toRat = e.toRat) :
    d.coeff * tenPow e.places = e.coeff * tenPow d.places := by
  rw [toRat, toRat, div_eq_div_iff (by positivity) (by positivity), ← cast_tenPow,
    ← cast_tenPow] at h
  exact_mod_cast h

/-- Of two decimals that are the same number, the one with more places has a zero at their end. -/
theorem IsTrimmed.places_le (hd : d.IsTrimmed) (h : d.toRat = e.toRat) : d.places ≤ e.places := by
  by_contra hlt
  obtain ⟨k, hk⟩ := Nat.exists_eq_add_of_lt (not_le.1 hlt)
  have hmul := mul_tenPow_of_toRat_eq h
  have hcoeff : d.coeff = e.coeff * tenPow (k + 1) := by
    rw [hk, Nat.add_assoc, tenPow_add, Nat.cast_mul, mul_left_comm, mul_comm] at hmul
    exact mul_left_cancel₀ (by exact_mod_cast (tenPow_pos e.places).ne') hmul
  refine hd (by omega) ?_
  rw [hcoeff, tenPow_succ, Nat.cast_mul, ← mul_assoc]
  exact Int.mul_emod_left _ _

/-- **A number has only one decimal without zeros at its end.** -/
theorem IsTrimmed.eq_of_toRat_eq (hd : d.IsTrimmed) (he : e.IsTrimmed) (h : d.toRat = e.toRat) :
    d = e := by
  have hplaces : d.places = e.places := le_antisymm (hd.places_le h) (he.places_le h.symm)
  have hmul := mul_tenPow_of_toRat_eq h
  rw [hplaces] at hmul
  have hcoeff : d.coeff = e.coeff :=
    mul_right_cancel₀ (by exact_mod_cast (tenPow_pos e.places).ne') hmul
  cases d
  cases e
  obtain rfl : _ = _ := hplaces
  obtain rfl : _ = _ := hcoeff
  rfl

/-- If trimming takes no place away, there was no zero to take away. -/
theorem isTrimmed_of_places_le (h : d.places ≤ d.trim.places) : d.IsTrimmed := by
  have hplaces : d.trim.places = d.places := le_antisymm (places_trimmed_le _ _) h
  have hcoeff : d.trim.coeff * tenPow (d.places - d.trim.places) = d.coeff :=
    coeff_trimmed d.coeff d.places
  rw [hplaces, Nat.sub_self, tenPow_zero, Nat.cast_one, mul_one] at hcoeff
  have htrim := isTrimmed_trim d
  rwa [IsTrimmed, hplaces, hcoeff] at htrim

theorem IsTrimmed.neg (hd : d.IsTrimmed) : d.neg.IsTrimmed := by
  intro hplaces
  have hlast := hd hplaces
  show -d.coeff % 10 ≠ 0
  omega

/-- The figures do not show the sign. -/
theorem figures_neg (d : Decimal) : d.neg.figures = d.figures := by
  simp only [figures, Decimal.neg, Int.natAbs_neg]

end Decimal

/-! ### Shortest decimals -/

/-- A shortest decimal does not end in a superfluous zero. -/
theorem isTrimmed_shortest {n : ℕ} (hn : n ≤ infIndex) : (shortest n).IsTrimmed := by
  have hread :
      ofScientific (shortest n).trim.coeff.natAbs (-(shortest n).trim.places) = n := by
    rw [ofScientific_eq, ← Decimal.abs_toRat, Decimal.toRat_trim,
      abs_of_nonneg (toRat_shortest_nonneg n), nearestIndex_shortest hn]
  exact Decimal.isTrimmed_of_places_le (places_shortest_le hn hread)

theorem shortest_zero : shortest 0 = ⟨0, 0⟩ := by decide +kernel

theorem coeff_shortest_ne_zero {n : ℕ} (hn : n ≤ infIndex) (hzero : n ≠ 0) :
    (shortest n).coeff ≠ 0 := by
  intro hcoeff
  have hrat : (shortest n).toRat = toRat 0 := by
    rw [Decimal.toRat, hcoeff, Int.cast_zero, zero_div]
    exact (zero_div _).symm
  have hread := nearestIndex_shortest hn
  rw [hrat, nearestIndex_toRat (Nat.zero_le _)] at hread
  exact hzero hread.symm

theorem text_shortest (n : ℕ) : (shortest n).text = (shortest n).figures := by
  rw [Decimal.text_eq, if_neg (not_lt.2 (coeff_shortest_nonneg n)), List.nil_append]

variable {v : Float} {places : ℕ}

theorem toDecimal_of_index_eq_zero (h : index v = 0) : toDecimal v = ⟨0, 0⟩ := by
  rw [toDecimal, h, shortest_zero]
  exact ite_self _

/-- The shortest decimal of a double that is not zero has the sign of the double. -/
theorem coeff_toDecimal_lt_zero_iff (hv : index v ≤ infIndex) (hzero : index v ≠ 0) :
    (toDecimal v).coeff < 0 ↔ isNegative v = true := by
  have hne := coeff_shortest_ne_zero hv hzero
  have hnonneg := coeff_shortest_nonneg (index v)
  unfold toDecimal
  by_cases hneg : isNegative v = true
  · rw [if_pos hneg]
    refine iff_of_true ?_ hneg
    show -(shortest (index v)).coeff < 0
    omega
  · rw [if_neg hneg]
    exact iff_of_false (not_lt.2 hnonneg) hneg

theorem isTrimmed_toDecimal (hv : index v ≤ infIndex) : (toDecimal v).IsTrimmed := by
  unfold toDecimal
  split
  · exact (isTrimmed_shortest hv).neg
  · exact isTrimmed_shortest hv

/-- With places enough, rounding changes nothing. -/
theorem roundedDecimal_eq_toDecimal (hv : index v ≤ infIndex)
    (h : (toDecimal v).places ≤ places) : roundedDecimal places v = toDecimal v :=
  (Decimal.isTrimmed_trim _).eq_of_toRat_eq (isTrimmed_toDecimal hv) (toRat_roundedDecimal h)

/-! ### Texts -/

/-- The number of digits after the point of a text; zero if it has no point. -/
def writtenPlaces (text : List Char) : ℕ := (text.dropWhile (· != '.')).tail.length

theorem writtenPlaces_figures (d : Decimal) : writtenPlaces d.figures = d.places := by
  have hwhole : ∀ c ∈ d.whole, (c != '.') = true := by
    intro c hc
    rw [bne_iff_ne]
    rintro rfl
    exact Decimal.point_not_mem (fun _ => Decimal.isDigit_of_mem_whole) hc
  obtain ⟨rest, hfigures, hpoint, htail⟩ := d.exists_figures_eq_append
  have hrest : rest.dropWhile (· != '.') = rest := by
    cases rest with
    | nil => rfl
    | cons c rest =>
      obtain rfl : c = '.' := hpoint c rfl
      rfl
  rw [writtenPlaces, hfigures, List.dropWhile_append_of_pos hwhole, hrest, htail,
    Decimal.length_fraction]

theorem figures_toDecimal (v : Float) : (toDecimal v).figures = (shortest (index v)).figures := by
  unfold toDecimal
  split
  · exact Decimal.figures_neg _
  · rfl

/-- The text of the shortest decimal is that of the double, but for the sign of a zero. -/
theorem text_toDecimal (hv : isFinite v = true) :
    (toDecimal v).text =
      if v == 0 then ['0'] else (if isNegative v then ['-'] else []) ++ Binary64.text v.abs := by
  have hindex := index_le_of_isFinite hv
  by_cases hzero : index v = 0
  · rw [if_pos ((beq_zero_iff hv).2 hzero), toDecimal_of_index_eq_zero hzero]
    rfl
  · have hsign := coeff_toDecimal_lt_zero_iff hindex hzero
    rw [if_neg (mt (beq_zero_iff hv).1 hzero), text_abs hv, Decimal.text_eq, figures_toDecimal,
      text_shortest]
    simp only [hsign]

/-- The shortest decimal reads as the double. -/
theorem rank_toFloat_toDecimal (hv : index v ≤ infIndex) : rank (toDecimal v).toFloat = rank v := by
  rw [rank, rank, index_toFloat_of_toRat_eq hv rfl, Decimal.isNegative_toFloat]
  by_cases hzero : index v = 0
  · rw [hzero, Int.natCast_zero, Int.neg_zero, ite_self, ite_self]
  · simp only [Decimal.toRat_lt_zero_iff, decide_eq_true_eq, coeff_toDecimal_lt_zero_iff hv hzero]

/-- **With places enough, the readout of a double is its own text and reads as the double.** -/
theorem readout_eq_text (hv : isFinite v = true)
    (h : writtenPlaces (Binary64.text v.abs) ≤ places) :
    ∃ t w, readout v places = .ok t ∧
      t = (if v == 0 then ['0'] else (if isNegative v then ['-'] else []) ++ Binary64.text v.abs) ∧
      Numeral.read? t = some w ∧ (w == v) = true := by
  have hindex := index_le_of_isFinite hv
  rw [text_abs hv, text_shortest, writtenPlaces_figures, ← places_toDecimal] at h
  have hrounded := roundedDecimal_eq_toDecimal hindex h
  have hagain : roundedDecimal places (toDecimal v).toFloat = toDecimal v := by
    rw [roundedDecimal, toDecimal_toFloat hindex rfl]
    exact hrounded
  have hfin := isFinite_toFloat_roundedDecimal hv places
  rw [hrounded] at hfin
  refine ⟨(toDecimal v).text, (toDecimal v).toFloat, readout_eq_ok_iff.2 ⟨hv, ?_⟩,
    text_toDecimal hv, Decimal.read?_text _,
    (beq_iff_rank_eq hfin hv).2 (rank_toFloat_toDecimal hindex)⟩
  rw [hrounded, roundedText_eq, hagain]

/-- Minus a tenth has one place, and with one place its own text is the readout. -/
theorem readout_eq_text_minus_tenth :
    isFinite (ofIndex true 0x3FB999999999999A) = true ∧
      writtenPlaces (Binary64.text (ofIndex true 0x3FB999999999999A).abs) ≤ 1 ∧
      readout (ofIndex true 0x3FB999999999999A) 1 = .ok ['-', '0', '.', '1'] ∧
      ∃ w, Numeral.read? ['-', '0', '.', '1'] = some w ∧
        (w == ofIndex true 0x3FB999999999999A) = true := by
  have hv : isFinite (ofIndex true 0x3FB999999999999A) = true := by decide +kernel
  have hplaces : writtenPlaces (Binary64.text (ofIndex true 0x3FB999999999999A).abs) ≤ 1 := by
    decide +kernel
  obtain ⟨t, w, hreadout, htext, hread, hw⟩ := readout_eq_text hv hplaces
  obtain rfl : t = ['-', '0', '.', '1'] := htext.trans (by decide +kernel)
  exact ⟨hv, hplaces, hreadout, w, hread, hw⟩

end PocketCalc
