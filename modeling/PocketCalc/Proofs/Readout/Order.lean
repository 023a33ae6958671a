import PocketCalc.Proofs.Readout.Lossless

/-!
# Readouts keep the order and the sign

A double is shown by way of its shortest decimal, which is rounded, read and written out once more.
Each of these steps keeps the order of what it is given: shortest decimals are in the order of their
doubles (`toRat_toDecimal_mono`), and decimals read as doubles in the same order
(`rank_toFloat_mono`).  Each also keeps a change of the sign.  So does the whole, for any number of
places (`toRat_shown_mono`, `shown_neg`).

Main statement: `readout_mono_and_neg`.
-/

namespace PocketCalc

open Binary64

variable {v w : Float} {d e : Decimal}

/-! ### Order -/

theorem toRat_shortest_zero : (shortest 0).toRat = 0 := by
  rw [shortest_zero]
  exact zero_div _

/-- A larger double does not have a smaller shortest decimal, since it is read from it. -/
theorem toRat_shortest_mono {m n : ℕ} (hn : n ≤ infIndex) (h : m ≤ n) :
    (shortest m).toRat ≤ (shortest n).toRat := by
  by_contra hlt
  have hle := nearestIndex_mono (toRat_shortest_nonneg n) (not_le.1 hlt).le
  rw [nearestIndex_shortest hn, nearestIndex_shortest (h.trans hn)] at hle
  exact hlt (by rw [le_antisymm h hle])

theorem toRat_toDecimal (v : Float) :
    (toDecimal v).toRat =
      if isNegative v then -(shortest (index v)).toRat else (shortest (index v)).toRat := by
  unfold toDecimal
  split
  · exact Decimal.toRat_neg _
  · rfl

/-- **Shortest decimals are in the order of their doubles.** -/
theorem toRat_toDecimal_mono (hv : index v ≤ infIndex) (hw : index w ≤ infIndex)
    (h : rank v ≤ rank w) : (toDecimal v).toRat ≤ (toDecimal w).toRat := by
  have hv0 := toRat_shortest_nonneg (index v)
  have hw0 := toRat_shortest_nonneg (index w)
  rw [toRat_toDecimal, toRat_toDecimal]
  unfold rank at h
  by_cases hvneg : isNegative v = true
  · rw [if_pos hvneg] at h ⊢
    by_cases hwneg : isNegative w = true
    · rw [if_pos hwneg] at h ⊢
      have hle : index w ≤ index v := by omega
      exact neg_le_neg (toRat_shortest_mono hv hle)
    · rw [if_neg hwneg]
      exact (neg_nonpos.2 hv0).trans hw0
  · rw [if_neg hvneg] at h ⊢
    by_cases hwneg : isNegative w = true
    · -- only zeros are left
      rw [if_pos hwneg] at h ⊢
      obtain ⟨hvzero, hwzero⟩ : index v = 0 ∧ index w = 0 := by omega
      rw [hvzero, hwzero, toRat_shortest_zero, neg_zero]
    · rw [if_neg hwneg] at h ⊢
      have hle : index v ≤ index w := by omega
      exact toRat_shortest_mono hw hle

/-- **Decimals read as doubles in the same order.** -/
theorem rank_toFloat_mono (h : d.toRat ≤ e.toRat) : rank d.toFloat ≤ rank e.toFloat := by
  rw [rank, rank, d.index_toFloat, e.index_toFloat, d.isNegative_toFloat, e.isNegative_toFloat]
  simp only [decide_eq_true_eq]
  by_cases hd : d.toRat < 0
  · rw [if_pos hd, abs_of_neg hd]
    by_cases he : e.toRat < 0
    · rw [if_pos he, abs_of_neg he]
      have hle := nearestIndex_mono (neg_nonneg.2 he.le) (neg_le_neg h)
      omega
    · rw [if_neg he]
      omega
  · have he : ¬ e.toRat < 0 := fun he => hd (h.trans_lt he)
    rw [if_neg hd, if_neg he, abs_of_nonneg (not_lt.1 hd), abs_of_nonneg (not_lt.1 he)]
    exact_mod_cast nearestIndex_mono (not_lt.1 hd) h

theorem toRat_roundedDecimal_mono (hv : index v ≤ infIndex) (hw : index w ≤ infIndex)
    (h : rank v ≤ rank w) (places : ℕ) :
    (roundedDecimal places v).toRat ≤ (roundedDecimal places w).toRat := by
  rw [roundedDecimal, roundedDecimal, Decimal.toRat_trim, Decimal.toRat_trim]
  exact Decimal.toRat_round_mono (toRat_toDecimal_mono hv hw h) places

/-! ### Sign -/

theorem neg_eq_ofIndex (hv : index v ≤ infIndex) : -v = ofIndex (!isNegative v) (index v) := by
  rw [← neg_ofIndex (isNegative v) hv, ofIndex_index]

theorem isFinite_neg (hv : isFinite v = true) : isFinite (-v) = true := by
  have hle := index_le_of_isFinite hv
  rw [neg_eq_ofIndex hle, isFinite, index_ofIndex _ hle]
  exact hv

/-- The minus sign changes the sign of the shortest decimal. -/
theorem toDecimal_neg (hv : index v ≤ infIndex) : toDecimal (-v) = (toDecimal v).neg := by
  rw [neg_eq_ofIndex hv, toDecimal, toDecimal, isNegative_ofIndex _ hv, index_ofIndex _ hv]
  cases isNegative v
  · rfl
  · exact (Decimal.neg_neg_self _).symm

theorem index_toFloat_le (d : Decimal) : index d.toFloat ≤ infIndex := by
  rw [d.index_toFloat]
  exact nearestIndex_le _

theorem toFloat_neg (h : d.coeff ≠ 0) : d.neg.toFloat = -d.toFloat := by
  have hsign : decide (-d.coeff < 0) = !decide (d.coeff < 0) := by
    rw [← decide_not, decide_eq_decide]
    omega
  have hfloat : d.neg.toFloat =
      ofIndex (decide (-d.coeff < 0)) (ofScientific (-d.coeff).natAbs (-d.places)) := rfl
  rw [hfloat, hsign, Int.natAbs_neg, ← neg_ofIndex _ (ofScientific_le _ _),
    Decimal.toFloat]

theorem toDecimal_toFloat_of_coeff_eq_zero (h : d.coeff = 0) : toDecimal d.toFloat = ⟨0, 0⟩ := by
  have hfloat : d.toFloat = ofIndex false 0 := by
    rw [Decimal.toFloat, h]
    rfl
  rw [hfloat]
  exact toDecimal_of_index_eq_zero (index_ofIndex false (Nat.zero_le _))

/-- A decimal with the other sign reads as a double with the other sign; a zero has only one
decimal. -/
theorem toDecimal_toFloat_neg (d : Decimal) :
    toDecimal d.neg.toFloat = (toDecimal d.toFloat).neg := by
  by_cases hzero : d.coeff = 0
  · rw [Decimal.neg_of_coeff_eq_zero hzero, toDecimal_toFloat_of_coeff_eq_zero hzero]
    rfl
  · rw [toFloat_neg hzero]
    exact toDecimal_neg (index_toFloat_le d)

theorem roundedDecimal_eq_neg {places : ℕ} (h : toDecimal w = (toDecimal v).neg) :
    roundedDecimal places w = (roundedDecimal places v).neg := by
  rw [roundedDecimal, roundedDecimal, h, Decimal.round_neg, Decimal.trim_neg]

/-! ### Texts with the other sign -/

/-- A text with the other sign; a zero has none. -/
def flipSign : List Char → List Char
  | ['0'] => ['0']
  | '-' :: text => text
  | text => '-' :: text

theorem flipSign_of_isDigit {c : Char} {rest : List Char} (hc : c.isDigit = true)
    (hne : c :: rest ≠ ['0']) : flipSign (c :: rest) = '-' :: c :: rest := by
  unfold flipSign
  split
  · rename_i heq
    exact absurd heq hne
  · rename_i heq
    obtain ⟨rfl, -⟩ := List.cons.inj heq
    cases hc
  · rfl

namespace Decimal

theorem IsTrimmed.eq_zero (hd : d.IsTrimmed) (hzero : d.coeff = 0) : d = ⟨0, 0⟩ := by
  refine hd.eq_of_toRat_eq (fun h => absurd rfl h) ?_
  rw [toRat, toRat, hzero]
  simp

theorem IsTrimmed.text_eq_zero_iff (hd : d.IsTrimmed) : d.text = ['0'] ↔ d.coeff = 0 := by
  constructor
  · intro h
    have hread := d.ofText?_text
    rw [h] at hread
    have hzero : (⟨0, 0⟩ : Decimal) = d := Option.some.inj hread
    rw [← hzero]
  · intro h
    rw [hd.eq_zero h]
    rfl

/-- The text of the decimal with the other sign is the text with the other sign. -/
theorem IsTrimmed.text_neg (hd : d.IsTrimmed) : d.neg.text = flipSign d.text := by
  by_cases hzero : d.coeff = 0
  · rw [hd.eq_zero hzero]
    rfl
  · obtain ⟨c, rest, hfigures, hc⟩ := d.exists_figures_eq_cons
    have hne := mt hd.text_eq_zero_iff.1 hzero
    rw [text_eq, hfigures] at hne
    rw [text_eq, text_eq, figures_neg, hfigures]
    by_cases hneg : d.coeff < 0
    · have hpos : ¬ d.neg.coeff < 0 := by
        simp only [Decimal.neg]
        omega
      rw [if_neg hpos, if_pos hneg]
      rfl
    · have hpos : d.neg.coeff < 0 := by
        simp only [Decimal.neg]
        omega
      rw [if_neg hneg] at hne ⊢
      rw [if_pos hpos]
      exact (flipSign_of_isDigit hc hne).symm

end Decimal

/-! ### Readouts -/

/-- The decimal that is shown for a double. -/
def shown (places : ℕ) (v : Float) : Decimal :=
  roundedDecimal places (roundedDecimal places v).toFloat

theorem readout_eq_shown (hv : isFinite v = true) (places : ℕ) :
    readout v places = .ok (shown places v).text :=
  readout_eq_ok_iff.2 ⟨hv, rfl⟩

theorem toRat_shown_mono (hv : isFinite v = true) (hw : isFinite w = true) (h : rank v ≤ rank w)
    (places : ℕ) : (shown places v).toRat ≤ (shown places w).toRat := by
  have hfirst :=
    toRat_roundedDecimal_mono (index_le_of_isFinite hv) (index_le_of_isFinite hw) h places
  exact toRat_roundedDecimal_mono (index_toFloat_le _) (index_toFloat_le _)
    (rank_toFloat_mono hfirst) places

theorem shown_neg (hv : index v ≤ infIndex) (places : ℕ) :
    shown places (-v) = (shown places v).neg := by
  refine roundedDecimal_eq_neg ?_
  rw [roundedDecimal_eq_neg (toDecimal_neg hv), toDecimal_toFloat_neg]

theorem isTrimmed_shown (places : ℕ) (v : Float) : (shown places v).IsTrimmed :=
  Decimal.isTrimmed_trim _

/-- **Readouts keep the order of doubles, and the sign.**  Of two finite doubles, the smaller one is
shown as a number that is at most that of the other, whatever the number of places; and with a minus
sign in front, a double is shown as the same text with the other sign, where only a zero has no sign
in both. -/
theorem readout_mono_and_neg (hv : isFinite v = true) (hw : isFinite w = true) (places : ℕ) :
    (v ≤ w → ∃ s t x y, readout v places = .ok s ∧ readout w places = .ok t ∧
      Decimal.number? s = some x ∧ Decimal.number? t = some y ∧ x ≤ y) ∧
    ∃ s t, readout v places = .ok s ∧ readout (-v) places = .ok t ∧ t = flipSign s ∧
      (s = ['0'] ↔ t = ['0']) := by
  have htrimmed := isTrimmed_shown places v
  refine ⟨fun hvw => ⟨_, _, _, _, readout_eq_shown hv places, readout_eq_shown hw places,
    Decimal.number?_text _, Decimal.number?_text _,
    toRat_shown_mono hv hw ((le_iff_rank_le hv hw).1 hvw) places⟩, ?_⟩
  have hneg : readout (-v) places = .ok (shown places v).neg.text := by
    rw [← shown_neg (index_le_of_isFinite hv)]
    exact readout_eq_shown (isFinite_neg hv) places
  refine ⟨_, _, readout_eq_shown hv places, hneg, htrimmed.text_neg, ?_⟩
  rw [htrimmed.text_eq_zero_iff, htrimmed.neg.text_eq_zero_iff]
  exact Int.neg_eq_zero.symm

/-- Minus two and a half is shown as a number below that of the double right below a half, and
without the minus sign it goes away from zero as far. -/
theorem readout_mono_and_neg_half :
    isFinite (ofIndex true 0x4004000000000000) = true ∧
      isFinite (ofIndex false 0x3FDFFFFFFFFFFFFF) = true ∧
      ofIndex true 0x4004000000000000 ≤ ofIndex false 0x3FDFFFFFFFFFFFFF ∧
      (∃ x y, readout (ofIndex true 0x4004000000000000) 0 = .ok ['-', '3'] ∧
        readout (ofIndex false 0x3FDFFFFFFFFFFFFF) 0 = .ok ['0'] ∧
        Decimal.number? ['-', '3'] = some x ∧ Decimal.number? ['0'] = some y ∧ x ≤ y) ∧
      readout (-ofIndex true 0x4004000000000000) 0 = .ok ['3'] := by
  have hv : isFinite (ofIndex true 0x4004000000000000) = true := by decide +kernel
  have hw : isFinite (ofIndex false 0x3FDFFFFFFFFFFFFF) = true := by decide +kernel
  have hvw : ofIndex true 0x4004000000000000 ≤ ofIndex false 0x3FDFFFFFFFFFFFFF := by
    decide +kernel
  have hshown : (shown 0 (ofIndex true 0x4004000000000000)).text = ['-', '3'] ∧
      (shown 0 (ofIndex false 0x3FDFFFFFFFFFFFFF)).text = ['0'] := by
    decide +kernel
  obtain ⟨hmono, s', t', hs', ht', rfl, -⟩ := readout_mono_and_neg hv hw 0
  obtain ⟨s, t, x, y, hs, ht, hx, hy, hxy⟩ := hmono hvw
  obtain rfl : ['-', '3'] = s :=
    hshown.1 ▸ Except.ok.inj ((readout_eq_shown hv 0).symm.trans hs)
  obtain rfl : ['0'] = t := hshown.2 ▸ Except.ok.inj ((readout_eq_shown hw 0).symm.trans ht)
  obtain rfl : ['-', '3'] = s' := Except.ok.inj (hs.symm.trans hs')
  exact ⟨hv, hw, hvw, ⟨x, y, hs, ht, hx, hy, hxy⟩, ht'⟩

end PocketCalc
