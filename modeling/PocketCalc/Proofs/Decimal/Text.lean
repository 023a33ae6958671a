import PocketCalc.Proofs.Binary64.Numeral

/-!
# The text of a decimal

The text of a decimal is a run of digits with one point at most, after a minus sign if the decimal
is negative (`text_eq`).  The digits before the point and those after it together write the
coefficient (`value_whole_append_fraction`).  Read as a numeral, the text stands for the double
nearest to the decimal (`read?_text`).
-/

namespace PocketCalc

namespace Decimal

/-! ### Digits -/

theorem isDigit_of_mem_toDigits {n : Nat} {c : Char} (h : c ∈ Nat.toDigits 10 n) :
    c.isDigit = true :=
  Nat.isDigit_of_mem_toDigits (by decide) (by decide) h

/-- The last `places` digits of a number, with zeros in front if it has fewer. -/
def lastDigits : Nat → Nat → List Char
  | 0, _ => []
  | places + 1, n => lastDigits places (n / 10) ++ [Nat.digitChar (n % 10)]

@[simp] theorem length_lastDigits (places n : Nat) : (lastDigits places n).length = places := by
  induction places generalizing n with
  | zero => rfl
  | succ places ih => simp [lastDigits, ih]

theorem isDigit_digitChar_mod (n : Nat) : (Nat.digitChar (n % 10)).isDigit = true := by
  rw [Nat.isDigit_digitChar]
  exact decide_eq_true (Nat.mod_lt n (by decide))

theorem isDigit_of_mem_lastDigits {places n : Nat} {c : Char} (h : c ∈ lastDigits places n) :
    c.isDigit = true := by
  induction places generalizing n with
  | zero => cases h
  | succ places ih =>
    rcases List.mem_append.1 h with h | h
    · exact ih h
    · rw [List.mem_singleton.1 h]
      exact isDigit_digitChar_mod n

theorem mod_tenPow_succ (n places : Nat) :
    n % tenPow (places + 1) = 10 * (n / 10 % tenPow places) + n % 10 := by
  rw [tenPow_succ, Nat.mul_comm, Nat.mod_mul, Nat.add_comm]

theorem value_lastDigits (places n init : Nat) :
    Nat.ofDigitChars 10 (lastDigits places n) init = tenPow places * init + n % tenPow places := by
  induction places generalizing n with
  | zero => simp [lastDigits, Nat.mod_one]
  | succ places ih =>
    rw [lastDigits, Nat.ofDigitChars_append, ih,
      Nat.ofDigitChars_cons_digitChar_of_lt_ten (Nat.mod_lt n (by decide)), Nat.ofDigitChars_nil,
      mod_tenPow_succ, tenPow_succ, Nat.mul_add, Nat.mul_left_comm 10,
      Nat.mul_assoc (tenPow places), Nat.add_assoc]

/-- Padding with zeros gives as many digits as there are places. -/
theorem leftpad_toDigits {places : Nat} (h : places ≠ 0) (n : Nat) :
    (Nat.toDigits 10 (n % tenPow places)).leftpad places '0' = lastDigits places n := by
  induction places generalizing n with
  | zero => exact absurd rfl h
  | succ places ih =>
    have hsplit := mod_tenPow_succ n places
    have hdiv : n % tenPow (places + 1) / 10 = n / 10 % tenPow places := by omega
    have hmod : n % tenPow (places + 1) % 10 = n % 10 := by omega
    rw [lastDigits, Nat.toDigits_eq_if (by decide), hdiv, hmod]
    by_cases hzero : places = 0
    · subst hzero
      have hten : tenPow (0 + 1) = 10 := rfl
      rw [hten, if_pos (Nat.mod_lt n (by decide))]
      rfl
    · rw [← ih hzero]
      by_cases hlt : n % tenPow (places + 1) < 10
      · -- a single digit is left, in front of which there are zeros only
        have hquotient : n / 10 % tenPow places = 0 := by omega
        have hdigit : n % tenPow (places + 1) = n % 10 := by omega
        rw [if_pos hlt, hquotient, hdigit, Nat.toDigits_zero, List.leftpad, List.leftpad,
          List.length_singleton, List.length_singleton, Nat.add_sub_cancel,
          ← List.replicate_succ', Nat.sub_add_cancel (Nat.pos_of_ne_zero hzero)]
      · rw [if_neg hlt, List.leftpad, List.leftpad, List.length_append, List.length_singleton,
          Nat.add_sub_add_right, List.append_assoc]

/-! ### The characters of the text -/

/-- The text without the sign. -/
def figures (d : Decimal) : List Char :=
  let whole := Nat.toDigits 10 (d.coeff.natAbs / tenPow d.places)
  let fraction := Nat.toDigits 10 (d.coeff.natAbs % tenPow d.places)
  if d.places = 0 then whole else whole ++ '.' :: fraction.leftpad d.places '0'

/-- The digits before the point. -/
def whole (d : Decimal) : List Char := Nat.toDigits 10 (d.coeff.natAbs / tenPow d.places)

/-- The digits after the point. -/
def fraction (d : Decimal) : List Char := lastDigits d.places d.coeff.natAbs

variable (d : Decimal)

theorem text_eq : d.text = (if d.coeff < 0 then ['-'] else []) ++ d.figures := by
  unfold text figures
  by_cases h : d.places = 0 <;> simp [h]

theorem figures_eq : d.figures = d.whole ++ if d.places = 0 then [] else '.' :: d.fraction := by
  unfold figures whole fraction
  by_cases h : d.places = 0
  · rw [if_pos h, if_pos h, List.append_nil]
  · rw [if_neg h, if_neg h, leftpad_toDigits h]

theorem exists_figures_eq_append :
    ∃ rest, d.figures = d.whole ++ rest ∧ (∀ c ∈ rest.head?, c = '.') ∧ rest.tail = d.fraction := by
  refine ⟨_, d.figures_eq, ?_⟩
  split
  · rename_i h
    refine ⟨fun c hc => (by cases hc), ?_⟩
    exact (List.length_eq_zero_iff.1 ((length_lastDigits _ _).trans h)).symm
  · refine ⟨fun c hc => ?_, rfl⟩
    simpa using hc.symm

@[simp] theorem length_fraction : d.fraction.length = d.places := length_lastDigits _ _

theorem whole_ne_nil : d.whole ≠ [] := Nat.toDigits_ne_nil

variable {d}

theorem isDigit_of_mem_whole {c : Char} (h : c ∈ d.whole) : c.isDigit = true :=
  isDigit_of_mem_toDigits h

theorem isDigit_of_mem_fraction {c : Char} (h : c ∈ d.fraction) : c.isDigit = true :=
  isDigit_of_mem_lastDigits h

theorem isFigure_of_mem_figures {c : Char} (h : c ∈ d.figures) : isFigure c = true := by
  have hdigit (hc : c.isDigit = true) : isFigure c = true := by simp [isFigure, hc]
  rw [figures_eq] at h
  rcases List.mem_append.1 h with h | h
  · exact hdigit (isDigit_of_mem_whole h)
  · split at h
    · cases h
    · rcases List.mem_cons.1 h with rfl | h
      · rfl
      · exact hdigit (isDigit_of_mem_fraction h)

variable (d)

theorem count_point_figures_le : d.figures.count '.' ≤ 1 := by
  have hwhole : d.whole.count '.' = 0 := count_point_eq_zero fun _ => isDigit_of_mem_whole
  have hfraction : d.fraction.count '.' = 0 := count_point_eq_zero fun _ => isDigit_of_mem_fraction
  rw [figures_eq, List.count_append, hwhole]
  split
  · exact Nat.zero_le 1
  · rw [List.count_cons, hfraction]
    exact Nat.le_refl 1

/-- The text starts with a digit after its sign. -/
theorem exists_figures_eq_cons : ∃ c rest, d.figures = c :: rest ∧ c.isDigit = true := by
  obtain ⟨c, rest, hwhole⟩ := List.exists_cons_of_ne_nil d.whole_ne_nil
  have hc : c.isDigit = true := isDigit_of_mem_whole (hwhole ▸ List.mem_cons_self)
  rw [figures_eq, hwhole]
  exact ⟨c, _, rfl, hc⟩

/-! ### Reading the text -/

open Binary64 Numeral

/-- The digits before and after the point write the coefficient. -/
theorem value_whole_append_fraction : value (d.whole ++ d.fraction) = d.coeff.natAbs := by
  rw [value, Nat.ofDigitChars_append, whole, Nat.ofDigitChars_ten_toDigits, fraction,
    value_lastDigits, Nat.div_add_mod]

theorem decimal?_figures :
    decimal? d.figures = some (ofScientific d.coeff.natAbs (-d.places)) := by
  have hvalue := d.value_whole_append_fraction
  rw [figures_eq]
  by_cases hplaces : d.places = 0
  · have hfraction : d.fraction = [] := List.length_eq_zero_iff.1 (d.length_fraction.trans hplaces)
    rw [hfraction, List.append_nil] at hvalue
    rw [if_pos hplaces, List.append_nil,
      decimal?_digits d.whole_ne_nil fun _ => isDigit_of_mem_whole, hvalue, hplaces]
    rfl
  · rw [if_neg hplaces, decimal?_point (.inl d.whole_ne_nil) (fun _ => isDigit_of_mem_whole)
      fun _ => isDigit_of_mem_fraction, hvalue, length_fraction]

/-- The double that the text of a decimal is read as. -/
def toFloat : Float :=
  ofIndex (decide (d.coeff < 0)) (ofScientific d.coeff.natAbs (-d.places))

/-- The text of a decimal stands for the double nearest to it. -/
theorem read?_text : read? d.text = some d.toFloat := by
  obtain ⟨c, rest, hfigures, hc⟩ := d.exists_figures_eq_cons
  have hfigure : isFigure c = true := by simp [isFigure, hc]
  have hread := d.decimal?_figures
  rw [hfigures] at hread
  rw [text_eq, hfigures, toFloat]
  by_cases hneg : d.coeff < 0
  · simp [hneg, read?_minus_of_isFigure hfigure, hread]
  · simp [hneg, read?_of_isFigure hfigure, hread]

end Decimal

end PocketCalc
