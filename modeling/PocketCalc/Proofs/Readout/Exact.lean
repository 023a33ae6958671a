import PocketCalc.Proofs.Decimal.Reading
import PocketCalc.Proofs.Readout

/-!
# Readouts are exact, and only infinities and NaN have none

A double is rounded by way of texts: its own text is read as a decimal, this is rounded, and the
zeros at the end are dropped from the text of the result (`roundedWritten`).  No step but the
rounding changes the number, and the rounding goes to the nearest number with the given places
(`exists_nearest_roundedWritten`).

Reading a text could fail at three places, before each of the two roundings and between them.  As
the text of a finite double can be read, and rounding makes no double infinite, none of them is
reached (`readoutWritten_eq`): only an infinity and a NaN have no readout.

Main statements: `exists_nearest_roundedWritten`, `exists_readout_error_iff`.
-/

namespace PocketCalc

open Binary64

/-! ### Rounding by way of texts -/

/-- The decimal that the text of `v` without its sign writes, with the sign of `v`. -/
def writtenDecimal (v : Float) : Except FormatError Decimal :=
  match Decimal.ofText? (Binary64.text v.abs) with
  | some d => .ok (if isNegative v then d.neg else d)
  | none => .error (.unreadable (Binary64.text v.abs))

/-- The text of `v` rounded to the given places, without the zeros at its end. -/
def roundedWritten (places : ℕ) (v : Float) : Except FormatError (List Char) := do
  let d ← writtenDecimal v
  return Decimal.dropZeros (d.round places).text

/-- The readout of `v`, each text in it being read. -/
def readoutWritten (v : Float) (places : ℕ) : Except FormatError (List Char) :=
  if isFinite v then do
    let first ← roundedWritten places v
    match Numeral.read? first with
    | some w => roundedWritten places w
    | none => .error (.unreadable first)
  else .error (.notFinite v)

variable {v : Float}

theorem text_abs (hv : isFinite v = true) : Binary64.text v.abs = (shortest (index v)).text := by
  have hindex : index v < infIndex := of_decide_eq_true hv
  simp only [abs_eq_ofIndex hindex.le, Binary64.text, index_ofIndex _ hindex.le,
    isNegative_ofIndex _ hindex.le, if_neg hindex.not_gt, if_neg hindex.ne, Bool.false_eq_true,
    if_false, List.nil_append]

theorem writtenDecimal_eq (hv : isFinite v = true) : writtenDecimal v = .ok (toDecimal v) := by
  rw [writtenDecimal, text_abs hv, Decimal.ofText?_text]
  rfl

theorem roundedWritten_eq (hv : isFinite v = true) (places : ℕ) :
    roundedWritten places v = .ok (roundedText places v) := by
  rw [roundedWritten, writtenDecimal_eq hv, roundedText, ← Decimal.dropZeros_text]
  rfl

/-- The text that a double is rounded to reads as a finite double. -/
theorem exists_read?_roundedText (hv : isFinite v = true) (places : ℕ) :
    ∃ w, Numeral.read? (roundedText places v) = some w ∧ isFinite w = true := by
  refine ⟨_, ?_, isFinite_toFloat_roundedDecimal hv places⟩
  rw [roundedText_eq, Decimal.read?_text]

theorem readoutWritten_eq (v : Float) (places : ℕ) :
    readoutWritten v places = readout v places := by
  unfold readoutWritten readout
  by_cases hv : isFinite v = true
  · obtain ⟨w, hread, hw⟩ := exists_read?_roundedText hv places
    rw [if_pos hv, if_pos hv, roundedWritten_eq hv, hread]
    simp only [bind, Except.bind, hread]
    exact roundedWritten_eq hw places
  · rw [if_neg hv, if_neg hv]

/-- **One rounding is exact.**  Let `x` be the number that the text of a finite double without its
sign writes, taken with the sign of the double, and `m` the integer nearest to `x * 10 ^ places`, a
half going away from zero.  Then rounding gives a text that writes `m / 10 ^ places`: it is the text
of `m` with as many places, which writes this number, without the zeros at its end. -/
theorem exists_nearest_roundedWritten (hv : isFinite v = true) (places : ℕ) :
    ∃ (x : ℚ) (m : ℤ),
      Decimal.number? (Binary64.text v.abs) = some x ∧
      (∀ n : ℤ, Decimal.IsNearest ((if isNegative v then -x else x) * 10 ^ places) n ↔ n = m) ∧
      roundedWritten places v = .ok (roundedText places v) ∧
      roundedText places v = Decimal.dropZeros (Decimal.text ⟨m, places⟩) ∧
      Decimal.number? (Decimal.text ⟨m, places⟩) = some ((m : ℚ) / 10 ^ places) ∧
      Decimal.number? (roundedText places v) = some ((m : ℚ) / 10 ^ places) := by
  have hnearest := Decimal.isNearest_round places (toDecimal v)
  have hsign : (toDecimal v).toRat =
      if isNegative v then -(shortest (index v)).toRat else (shortest (index v)).toRat := by
    unfold toDecimal
    split
    · exact Decimal.toRat_neg _
    · rfl
  have hvalue : ((toDecimal v).round places).toRat =
      ((toDecimal v).round places).coeff / 10 ^ places := rfl
  have htext : roundedText places v = Decimal.dropZeros ((toDecimal v).round places).text := by
    rw [roundedText, Decimal.dropZeros_text]
  rw [hsign] at hnearest
  refine ⟨_, ((toDecimal v).round places).coeff, ?_,
    fun n => ⟨fun hn => hn.unique hnearest, fun hn => hn ▸ hnearest⟩, roundedWritten_eq hv places,
    htext, ?_, ?_⟩
  · rw [text_abs hv, Decimal.number?_text]
  · rw [← hvalue]
    exact Decimal.number?_text _
  · rw [htext, Decimal.number?_dropZeros_text, hvalue]

/-- Minus two and a half goes away from zero, to a text without a point. -/
theorem exists_nearest_roundedWritten_half :
    isFinite (ofIndex true 0x4004000000000000) = true ∧
      roundedText 0 (ofIndex true 0x4004000000000000) = ['-', '3'] ∧
      ∃ (x : ℚ) (m : ℤ),
        Decimal.number? (Binary64.text (ofIndex true 0x4004000000000000).abs) = some x ∧
        (∀ n : ℤ, Decimal.IsNearest
          ((if isNegative (ofIndex true 0x4004000000000000) then -x else x) * 10 ^ 0) n ↔ n = m) ∧
        roundedWritten 0 (ofIndex true 0x4004000000000000) = .ok ['-', '3'] ∧
        Decimal.number? ['-', '3'] = some ((m : ℚ) / 10 ^ 0) := by
  have hv : isFinite (ofIndex true 0x4004000000000000) = true := by decide +kernel
  have hshown : roundedText 0 (ofIndex true 0x4004000000000000) = ['-', '3'] := by decide +kernel
  obtain ⟨x, m, hx, hm, hrounded, -, -, hnumber⟩ := exists_nearest_roundedWritten hv 0
  rw [hshown] at hrounded hnumber
  exact ⟨hv, hshown, x, m, hx, hm, hrounded, hnumber⟩

/-- **Only infinite doubles and NaN have no readout.**  The error then names the double, and no text
is ever unreadable: the text that a finite double is rounded to reads as a finite double. -/
theorem exists_readout_error_iff (v : Float) (places : ℕ) :
    ((∃ error, readout v places = .error error) ↔ v.isInf = true ∨ v.isNaN = true) ∧
      (∀ error, readout v places = .error error → error = .notFinite v) ∧
      (isFinite v = true →
        ∃ w, Numeral.read? (roundedText places v) = some w ∧ isFinite w = true) ∧
      readoutWritten v places = readout v places := by
  refine ⟨?_, fun error h => (readout_eq_error_iff.1 h).2,
    fun hv => exists_read?_roundedText hv places, readoutWritten_eq v places⟩
  rw [← isFinite_eq_false_iff]
  constructor
  · rintro ⟨error, h⟩
    exact (readout_eq_error_iff.1 h).1
  · intro hv
    exact ⟨_, readout_eq_error_iff.2 ⟨hv, rfl⟩⟩

/-- The largest double is rounded to a text that reads as a finite double, and the double after it
has no readout. -/
theorem exists_readout_error_largest :
    (isFinite (ofIndex true (infIndex - 1)) = true ∧
      ∃ w, Numeral.read? (roundedText 5 (ofIndex true (infIndex - 1))) = some w ∧
        isFinite w = true) ∧
    (ofIndex true infIndex).isInf = true ∧
      readout (ofIndex true infIndex) 5 = .error (.notFinite (ofIndex true infIndex)) := by
  have hlargest : isFinite (ofIndex true (infIndex - 1)) = true := by decide +kernel
  have hinf : (ofIndex true infIndex).isInf = true := by decide +kernel
  obtain ⟨hiff, hnotFinite, -, -⟩ := exists_readout_error_iff (ofIndex true infIndex) 5
  obtain ⟨-, -, hread, -⟩ := exists_readout_error_iff (ofIndex true (infIndex - 1)) 5
  obtain ⟨error, herror⟩ := hiff.2 (.inl hinf)
  exact ⟨⟨hlargest, hread hlargest⟩, hinf, hnotFinite error herror ▸ herror⟩

end PocketCalc
