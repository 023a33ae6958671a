import Mathlib.Data.List.DropRight
import PocketCalc.Proofs.Decimal.Text
import PocketCalc.Proofs.Decimal.Value

/-!
# The decimal that a text writes

A text of digits with a point among them writes a decimal exactly: the digits make up its
coefficient, and its places are the digits after the point (`ofText?`).  The text of a decimal
writes this decimal (`ofText?_text`).  Zeros at the end can be dropped from the text as well as from
the decimal (`dropZeros_text`), and the number that the text writes stays the same
(`number?_dropZeros_text`).

Main statements: `ofText?_text`, `dropZeros_text`.
-/

namespace PocketCalc.Decimal

open Binary64 Numeral

/-! ### Reading -/

/-- The decimal with the given sign that digits with a point write. -/
def ofFigures? (negative : Bool) (text : List Char) : Option Decimal :=
  let whole := text.takeWhile (· != '.')
  let fraction := (text.dropWhile (· != '.')).tail
  (integer? negative (whole ++ fraction)).map (⟨·, fraction.length⟩)

/-- The decimal that a text writes, without rounding. -/
def ofText? : List Char → Option Decimal
  | '-' :: text => ofFigures? true text
  | text => ofFigures? false text

/-- The number that a text writes. -/
def number? (text : List Char) : Option ℚ := (ofText? text).map toRat

variable (d : Decimal)

theorem point_not_mem {l : List Char} (h : ∀ c ∈ l, c.isDigit = true) : '.' ∉ l :=
  List.count_eq_zero.1 (count_point_eq_zero h)

/-- The text is cut at its point. -/
theorem ofFigures?_append {whole rest : List Char} (hwhole : '.' ∉ whole)
    (hrest : ∀ c ∈ rest.head?, c = '.') (negative : Bool) :
    ofFigures? negative (whole ++ rest) =
      (integer? negative (whole ++ rest.tail)).map (⟨·, rest.tail.length⟩) := by
  have hne : ∀ c ∈ whole, (c != '.') = true := by
    intro c hc
    rw [bne_iff_ne]
    rintro rfl
    exact hwhole hc
  have hpoint : rest.takeWhile (· != '.') = [] ∧ rest.dropWhile (· != '.') = rest := by
    cases rest with
    | nil => exact ⟨rfl, rfl⟩
    | cons c rest =>
      obtain rfl : c = '.' := hrest c rfl
      exact ⟨rfl, rfl⟩
  rw [ofFigures?, List.takeWhile_append_of_pos hne, List.dropWhile_append_of_pos hne, hpoint.1,
    hpoint.2, List.append_nil]

theorem integer?_whole_append_fraction (negative : Bool) :
    integer? negative (d.whole ++ d.fraction) =
      some (if negative then -(d.coeff.natAbs : ℤ) else d.coeff.natAbs) := by
  have hdigits : (d.whole ++ d.fraction).all Char.isDigit = true := by
    rw [List.all_append, Bool.and_eq_true, List.all_eq_true, List.all_eq_true]
    exact ⟨fun _ => isDigit_of_mem_whole, fun _ => isDigit_of_mem_fraction⟩
  have hne : (d.whole ++ d.fraction).isEmpty = false := by
    simp [List.isEmpty_eq_false_iff, d.whole_ne_nil]
  rw [integer?, hdigits, hne, d.value_whole_append_fraction]
  rfl

theorem ofFigures?_figures (negative : Bool) :
    ofFigures? negative d.figures =
      some ⟨if negative then -(d.coeff.natAbs : ℤ) else d.coeff.natAbs, d.places⟩ := by
  have hwhole : '.' ∉ d.whole := point_not_mem fun _ => isDigit_of_mem_whole
  obtain ⟨rest, hfigures, hpoint, htail⟩ := d.exists_figures_eq_append
  rw [hfigures, ofFigures?_append hwhole hpoint, htail, integer?_whole_append_fraction,
    length_fraction]
  rfl

/-- **The text of a decimal writes this decimal.** -/
theorem ofText?_text : ofText? d.text = some d := by
  obtain ⟨c, rest, hfigures, hc⟩ := d.exists_figures_eq_cons
  rw [text_eq]
  by_cases hneg : d.coeff < 0
  · rw [if_pos hneg]
    refine (d.ofFigures?_figures true).trans ?_
    rw [if_pos rfl, Int.ofNat_natAbs_of_nonpos hneg.le, neg_neg]
  · have hminus : c ≠ '-' := by
      rintro rfl
      cases hc
    have hunsigned : ofText? d.figures = ofFigures? false d.figures := by
      rw [hfigures]
      unfold ofText?
      split
      · rename_i heq
        exact absurd (List.cons.inj heq).1 hminus
      · rfl
    rw [if_neg hneg, List.nil_append, hunsigned, ofFigures?_figures, if_neg Bool.false_ne_true,
      Int.natAbs_of_nonneg (not_lt.1 hneg)]

theorem number?_text : number? d.text = some d.toRat := by
  rw [number?, ofText?_text]
  rfl

/-! ### Zeros at the end -/

/-- A text with a point without the zeros at its end, and without a point that is then last. -/
def dropZeros (text : List Char) : List Char :=
  if '.' ∈ text then (text.rdropWhile (· == '0')).rdropWhile (· == '.') else text

theorem dropZeros_concat_zero {text : List Char} (h : '.' ∈ text) :
    dropZeros (text ++ ['0']) = dropZeros text := by
  rw [dropZeros, dropZeros, if_pos (List.mem_append_left _ h), if_pos h,
    List.rdropWhile_concat_pos _ _ _ rfl]

theorem dropZeros_point_zero {text : List Char} (h : '.' ∉ text) :
    dropZeros (text ++ ['.', '0']) = text := by
  have hself : text.rdropWhile (· == '.') = text := by
    refine List.rdropWhile_eq_self_iff.2 fun hne hlast => h ?_
    rw [← eq_of_beq hlast]
    exact List.getLast_mem hne
  have hsplit : text ++ ['.', '0'] = text ++ ['.'] ++ ['0'] := by simp
  rw [hsplit, dropZeros, if_pos (by simp), List.rdropWhile_concat_pos _ _ _ rfl,
    List.rdropWhile_concat_neg _ _ _ (by decide), List.rdropWhile_concat_pos _ _ _ rfl, hself]

theorem dropZeros_concat {text : List Char} {c : Char} (hzero : c ≠ '0') (hpoint : c ≠ '.') :
    dropZeros (text ++ [c]) = text ++ [c] := by
  rw [dropZeros, List.rdropWhile_concat_neg _ _ _ (by simpa using hzero),
    List.rdropWhile_concat_neg _ _ _ (by simpa using hpoint), ite_self]

/-- The text up to its point. -/
def front (d : Decimal) : List Char := (if d.coeff < 0 then ['-'] else []) ++ d.whole

theorem text_eq_front : d.text = d.front ++ if d.places = 0 then [] else '.' :: d.fraction := by
  rw [text_eq, figures_eq, front, List.append_assoc]

theorem point_not_mem_front : '.' ∉ d.front := by
  have hwhole : '.' ∉ d.whole := point_not_mem fun _ => isDigit_of_mem_whole
  unfold front
  split
  · simpa using hwhole
  · simpa using hwhole

theorem dropZeros_text_of_places_eq_zero {d : Decimal} (h : d.places = 0) :
    dropZeros d.text = d.text := by
  rw [text_eq_front, if_pos h, List.append_nil, dropZeros, if_neg d.point_not_mem_front]

/-- A coefficient that ends in a zero, without this zero. -/
theorem ediv_ten_of_emod_eq_zero {coeff : ℤ} (h : coeff % 10 = 0) :
    (coeff / 10).natAbs = coeff.natAbs / 10 ∧ (coeff / 10 < 0 ↔ coeff < 0) ∧
      coeff.natAbs % 10 = 0 := by
  omega

/-- A zero at the end of the places is dropped from the text, with the point if it was alone. -/
theorem dropZeros_text_succ {coeff : ℤ} (h : coeff % 10 = 0) (places : ℕ) :
    dropZeros (text ⟨coeff, places + 1⟩) = dropZeros (text ⟨coeff / 10, places⟩) := by
  obtain ⟨hdiv, hneg, hmod⟩ := ediv_ten_of_emod_eq_zero h
  have hfront : front ⟨coeff, places + 1⟩ = front ⟨coeff / 10, places⟩ := by
    simp only [front, whole, hneg, hdiv, tenPow_succ, Nat.div_div_eq_div_mul,
      Nat.mul_comm (tenPow places)]
  have hfraction : fraction ⟨coeff, places + 1⟩ = fraction ⟨coeff / 10, places⟩ ++ ['0'] := by
    simp only [fraction, lastDigits, hdiv, hmod]
    rfl
  rw [text_eq_front, hfront, hfraction, if_neg (Nat.succ_ne_zero places)]
  by_cases hplaces : places = 0
  · subst hplaces
    rw [dropZeros_text_of_places_eq_zero rfl, text_eq_front, if_pos rfl, List.append_nil]
    exact dropZeros_point_zero (point_not_mem_front _)
  · rw [text_eq_front ⟨coeff / 10, places⟩, if_neg hplaces, ← List.cons_append,
      ← List.append_assoc]
    exact dropZeros_concat_zero (by simp)

theorem dropZeros_text_eq_trimmed (coeff : ℤ) (places : ℕ) :
    dropZeros (text ⟨coeff, places⟩) = (trimmed coeff places).text := by
  induction places generalizing coeff with
  | zero => exact dropZeros_text_of_places_eq_zero rfl
  | succ places ih =>
    rw [trimmed]
    by_cases h : coeff % 10 = 0
    · rw [if_pos h, dropZeros_text_succ h, ih]
    · have hdigit : Nat.digitChar (coeff.natAbs % 10) ≠ '0' := by
        rw [ne_eq, Nat.digitChar_eq_zero]
        omega
      have hpoint : Nat.digitChar (coeff.natAbs % 10) ≠ '.' := by
        intro heq
        have hc := isDigit_digitChar_mod coeff.natAbs
        rw [heq] at hc
        cases hc
      rw [if_neg h, text_eq_front, if_neg (Nat.succ_ne_zero places), fraction, lastDigits,
        ← List.cons_append, ← List.append_assoc, dropZeros_concat hdigit hpoint]

/-- **Zeros at the end can be dropped from the text as well as from the decimal.** -/
theorem dropZeros_text : dropZeros d.text = d.trim.text := dropZeros_text_eq_trimmed _ _

theorem number?_dropZeros_text : number? (dropZeros d.text) = some d.toRat := by
  rw [dropZeros_text, number?_text, toRat_trim]

end PocketCalc.Decimal
