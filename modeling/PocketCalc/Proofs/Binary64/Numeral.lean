import Mathlib.Data.List.TakeWhile
import PocketCalc.Binary64.Numeral
import PocketCalc.Token.Lexeme

/-!
# Numerals of digits and a point

What digits with one point at most are read as, alone and after a minus sign.  Digits with two
points are not read at all (`count_point_le_of_read?`), nor is a point alone
(`exists_isDigit_of_read?`); all else is (`isSome_read?_iff`).
-/

namespace PocketCalc

/-! ### Digits and points -/

theorem toNat_of_isFigure {c : Char} (h : isFigure c = true) : 46 ≤ c.toNat ∧ c.toNat ≤ 57 := by
  simp only [isFigure, Char.isDigit, Bool.or_eq_true, Bool.and_eq_true, decide_eq_true_eq,
    beq_iff_eq] at h
  rcases h with ⟨hge, hle⟩ | rfl
  · have hge' : 48 ≤ c.toNat := UInt32.le_iff_toNat_le.1 hge
    have hle' : c.toNat ≤ 57 := UInt32.le_iff_toNat_le.1 hle
    omega
  · decide

/-- Digits and points have no case. -/
theorem toLower_of_isFigure {c : Char} (h : isFigure c = true) : c.toLower = c := by
  obtain ⟨-, hle⟩ := toNat_of_isFigure h
  refine dif_neg ?_
  rintro ⟨hge, -⟩
  have hge' : 65 ≤ c.toNat := UInt32.le_iff_toNat_le.1 hge
  omega

theorem count_point_eq_zero {l : List Char} (h : ∀ c ∈ l, c.isDigit = true) :
    l.count '.' = 0 := by
  refine List.count_eq_zero.2 fun hmem => ?_
  have := h _ hmem
  cases this

namespace Binary64.Numeral

theorem decimal?_digits {whole : List Char} (hne : whole ≠ [])
    (hwhole : ∀ c ∈ whole, c.isDigit = true) :
    decimal? whole = some (ofScientific (value whole) 0) := by
  have htake : whole.takeWhile Char.isDigit = whole := List.takeWhile_eq_self_iff.2 hwhole
  have hdrop : whole.dropWhile Char.isDigit = [] := List.dropWhile_eq_nil_iff.2 hwhole
  simp [decimal?, htake, hdrop, fraction, exponent?, hne]

theorem decimal?_point {whole frac : List Char} (hne : whole ≠ [] ∨ frac ≠ [])
    (hwhole : ∀ c ∈ whole, c.isDigit = true) (hfrac : ∀ c ∈ frac, c.isDigit = true) :
    decimal? (whole ++ '.' :: frac) =
      some (ofScientific (value (whole ++ frac)) (-frac.length)) := by
  have htake : (whole ++ '.' :: frac).takeWhile Char.isDigit = whole := by
    rw [List.takeWhile_append_of_pos hwhole]
    simp
  have hdrop : (whole ++ '.' :: frac).dropWhile Char.isDigit = '.' :: frac := by
    rw [List.dropWhile_append_of_pos hwhole]
    simp
  have htake' : frac.takeWhile Char.isDigit = frac := List.takeWhile_eq_self_iff.2 hfrac
  have hdrop' : frac.dropWhile Char.isDigit = [] := List.dropWhile_eq_nil_iff.2 hfrac
  have hempty : (whole.isEmpty && frac.isEmpty) = false := by
    rcases hne with hne | hne <;> simp [hne]
  simp [decimal?, htake, hdrop, fraction, htake', hdrop', hempty, exponent?]

/-! ### The sign -/

theorem unsigned?_of_isFigure {c : Char} (h : isFigure c = true) (negative : Bool)
    (text : List Char) :
    unsigned? negative (c :: text) = (decimal? (c :: text)).map (ofIndex negative) := by
  have hi : c ≠ 'i' := by
    rintro rfl
    cases h
  have hn : c ≠ 'n' := by
    rintro rfl
    cases h
  simp [unsigned?, toLower_of_isFigure h, hi, hn]

theorem read?_of_isFigure {c : Char} (h : isFigure c = true) (text : List Char) :
    read? (c :: text) = (decimal? (c :: text)).map (ofIndex false) := by
  rw [← unsigned?_of_isFigure h]
  unfold read?
  split
  · rename_i heq
    obtain ⟨rfl, -⟩ := List.cons.inj heq
    cases h
  · rename_i heq
    obtain ⟨rfl, -⟩ := List.cons.inj heq
    cases h
  · rfl

theorem read?_minus_of_isFigure {c : Char} (h : isFigure c = true) (text : List Char) :
    read? ('-' :: c :: text) = (decimal? (c :: text)).map (ofIndex true) :=
  unsigned?_of_isFigure h true text

/-! ### Points -/

theorem mem_of_mem_fraction {text : List Char} {c : Char} (h : c ∈ (fraction text).2) :
    c ∈ text := by
  unfold fraction at h
  split at h
  · exact List.mem_cons_of_mem _ ((List.dropWhile_suffix _).subset h)
  · exact h

/-- An exponent does not start with a digit or a point. -/
theorem eq_nil_of_exponent? {text : List Char} (h : ∀ c ∈ text, isFigure c = true) {e : Int}
    (he : exponent? text = some e) : text = [] := by
  cases text with
  | nil => rfl
  | cons c rest =>
    have hc := h c List.mem_cons_self
    have hletter : ¬ (c = 'e' ∨ c = 'E') := by
      rintro (rfl | rfl) <;> cases hc
    have hnone : exponent? (c :: rest) = none := if_neg hletter
    rw [hnone] at he
    cases he

/-- If nothing follows the digits after the point, there is no second point. -/
theorem count_point_le_of_fraction {text : List Char} (h : (fraction text).2 = []) :
    text.count '.' ≤ 1 := by
  unfold fraction at h
  split at h
  · have hdigits := List.dropWhile_eq_nil_iff.1 h
    rw [List.count_cons, count_point_eq_zero hdigits]
    exact Nat.le_refl 1
  · have htext : text = [] := h
    rw [htext]
    exact Nat.zero_le 1

/-- **Digits and points that are read as a number have one point at most.** -/
theorem count_point_le_of_read? {text : List Char} (h : ∀ c ∈ text, isFigure c = true) {v : Float}
    (hread : read? text = some v) : text.count '.' ≤ 1 := by
  cases text with
  | nil => exact Nat.zero_le 1
  | cons c rest =>
    rw [read?_of_isFigure (h c List.mem_cons_self)] at hread
    generalize c :: rest = text at h hread ⊢
    obtain ⟨i, hi, -⟩ := Option.map_eq_some_iff.1 hread
    simp only [decimal?] at hi
    split at hi
    · cases hi
    · obtain ⟨e, he, -⟩ := Option.map_eq_some_iff.1 hi
      have hafter := eq_nil_of_exponent?
        (fun a ha => h a ((List.dropWhile_suffix _).subset (mem_of_mem_fraction ha))) he
      have hwhole : (text.takeWhile Char.isDigit).count '.' = 0 :=
        count_point_eq_zero fun a ha => List.all_eq_true.1 List.all_takeWhile a ha
      rw [← List.takeWhile_append_dropWhile (p := Char.isDigit) (l := text), List.count_append,
        hwhole, Nat.zero_add]
      exact count_point_le_of_fraction hafter

/-! ### What is read -/

theorem mem_of_mem_fraction_fst {text : List Char} {c : Char} (h : c ∈ (fraction text).1) :
    c ∈ text ∧ c.isDigit = true := by
  unfold fraction at h
  split at h
  · exact ⟨List.mem_cons_of_mem _ ((List.takeWhile_prefix _).subset h), List.mem_takeWhile_imp h⟩
  · cases h

/-- Digits and points that are read as a number have a digit. -/
theorem exists_isDigit_of_read? {text : List Char} (h : ∀ c ∈ text, isFigure c = true) {v : Float}
    (hread : read? text = some v) : ∃ c ∈ text, c.isDigit = true := by
  cases text with
  | nil => cases hread
  | cons c rest =>
    rw [read?_of_isFigure (h c List.mem_cons_self)] at hread
    generalize c :: rest = text at hread ⊢
    obtain ⟨i, hi, -⟩ := Option.map_eq_some_iff.1 hread
    simp only [decimal?] at hi
    split at hi
    · cases hi
    · rename_i hne
      rw [Bool.and_eq_true, List.isEmpty_iff, List.isEmpty_iff, not_and_or] at hne
      rcases hne with hwhole | hfrac
      · obtain ⟨d, hd⟩ := List.exists_mem_of_ne_nil _ hwhole
        exact ⟨d, (List.takeWhile_prefix _).subset hd, List.mem_takeWhile_imp hd⟩
      · obtain ⟨d, hd⟩ := List.exists_mem_of_ne_nil _ hfrac
        obtain ⟨hmem, hdigit⟩ := mem_of_mem_fraction_fst hd
        exact ⟨d, (List.dropWhile_suffix _).subset hmem, hdigit⟩

theorem isDigit_of_point_not_mem {text : List Char} (h : ∀ c ∈ text, isFigure c = true)
    (hpoint : '.' ∉ text) {c : Char} (hc : c ∈ text) : c.isDigit = true := by
  have hne : c ≠ '.' := by
    rintro rfl
    exact hpoint hc
  simpa [isFigure, hne] using h c hc

/-- There is a digit, and one point at most. -/
def isDecimal (text : List Char) : Bool := text.any Char.isDigit && decide (text.count '.' ≤ 1)

theorem isDecimal_iff {text : List Char} :
    isDecimal text = true ↔ (∃ c ∈ text, c.isDigit = true) ∧ text.count '.' ≤ 1 := by
  rw [isDecimal, Bool.and_eq_true, List.any_eq_true, decide_eq_true_eq]

theorem exists_decimal?_of_isDecimal {text : List Char} (h : ∀ c ∈ text, isFigure c = true)
    (hdecimal : isDecimal text = true) : ∃ i, decimal? text = some i := by
  obtain ⟨⟨d, hd, hdigit⟩, hcount⟩ := isDecimal_iff.1 hdecimal
  by_cases hmem : '.' ∈ text
  · obtain ⟨whole, frac, rfl⟩ := List.append_of_mem hmem
    have hnone : '.' ∉ whole ∧ '.' ∉ frac := by
      rw [List.count_append, List.count_cons_self] at hcount
      exact ⟨List.count_eq_zero.1 (by omega), List.count_eq_zero.1 (by omega)⟩
    have hwhole : ∀ c ∈ whole, c.isDigit = true := fun c =>
      isDigit_of_point_not_mem (fun a ha => h a (by simp [ha])) hnone.1
    have hfrac : ∀ c ∈ frac, c.isDigit = true := fun c =>
      isDigit_of_point_not_mem (fun a ha => h a (by simp [ha])) hnone.2
    refine ⟨_, decimal?_point ?_ hwhole hfrac⟩
    -- the digit is not the point
    rcases List.mem_append.1 hd with hd | hd
    · exact .inl (List.ne_nil_of_mem hd)
    · rcases List.mem_cons.1 hd with rfl | hd
      · cases hdigit
      · exact .inr (List.ne_nil_of_mem hd)
  · exact ⟨_, decimal?_digits (List.ne_nil_of_mem hd) fun c => isDigit_of_point_not_mem h hmem⟩

/-- **Digits and points are read as a number exactly if there is a digit, and one point at
most.** -/
theorem isSome_read?_iff {text : List Char} (h : ∀ c ∈ text, isFigure c = true) :
    (read? text).isSome = true ↔ isDecimal text = true := by
  constructor
  · intro hsome
    obtain ⟨v, hv⟩ := Option.isSome_iff_exists.1 hsome
    exact isDecimal_iff.2 ⟨exists_isDigit_of_read? h hv, count_point_le_of_read? h hv⟩
  · intro hdecimal
    obtain ⟨i, hi⟩ := exists_decimal?_of_isDecimal h hdecimal
    cases text with
    | nil => cases hdecimal
    | cons c rest => simp [read?_of_isFigure (h c List.mem_cons_self), hi]

end Binary64.Numeral

end PocketCalc
