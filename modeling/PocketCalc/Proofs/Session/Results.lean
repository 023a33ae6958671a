import PocketCalc.Proofs.Decimal.Canonical
import PocketCalc.Proofs.Session.Idempotence

/-!
# Results are canonical

Rounding leaves no zero at the end of the places, so that a readout is a canonical text and has no
more places than are asked for.  The text of an evaluation is a readout, and after an evaluation
that does not fail a session shows this text.

Main statement: `isCanonical_results`.
-/

namespace PocketCalc

open Binary64

theorem isCanonical_roundedText (places : ℕ) (v : Float) :
    IsCanonical places (roundedText places v) := by
  have htext := (Decimal.isTrimmed_trim ((toDecimal v).round places)).isCanonical_text
  exact htext.mono (places_roundedDecimal_le places v)

theorem isCanonical_of_readout {v : Float} {places : ℕ} {t : List Char}
    (h : readout v places = .ok t) : IsCanonical places t := by
  obtain ⟨-, rfl⟩ := readout_eq_ok_iff.1 h
  exact isCanonical_roundedText places _

theorem isCanonical_of_evaluate {expression : List Char} {places : ℕ} {e : Evaluation}
    (h : evaluate expression places = .ok e) : IsCanonical places e.text := by
  obtain ⟨-, -, -, -, -, hreadout, -⟩ := evaluate_eq_ok_iff.1 h
  exact isCanonical_of_readout hreadout

theorem Session.isCanonical_evaluate {s : Session} (h : s.evaluate.inError = false) :
    IsCanonical s.settings.places s.evaluate.buffer := by
  obtain herror | ⟨e, herror, heval⟩ := evaluate_cases s
  · rw [h] at herror
    cases herror
  · rw [evaluate_of_eq_ok herror heval]
    exact isCanonical_of_evaluate heval

/-- **Every result is a canonical text.**  It has no more places than are asked for, whether a
double is shown, as every finite one can be, an expression is evaluated, or a session evaluates what
was typed; a session asks for at most `maxPlaces` of them. -/
theorem isCanonical_results :
    (∀ v places, (isFinite v = true → ∃ t, readout v places = .ok t) ∧
      ∀ t, readout v places = .ok t → IsCanonical places t) ∧
    (∀ expression places e, evaluate expression places = .ok e → IsCanonical places e.text) ∧
    ∀ s : Session, s.evaluate.inError = false →
      s.settings.places ≤ maxPlaces ∧ IsCanonical s.settings.places s.evaluate.buffer := by
  refine ⟨fun v places => ⟨fun hv => ?_, fun _ => isCanonical_of_readout⟩,
    fun _ _ _ => isCanonical_of_evaluate, fun s h => ?_⟩
  · exact ⟨_, readout_eq_ok_iff.2 ⟨hv, rfl⟩⟩
  · exact ⟨s.settings.places_le, Session.isCanonical_evaluate h⟩

/-- A negative number that is rounded to zero has no sign, and neither the zeros that a large
integer ends with nor those after a point that are in front of another digit are dropped. -/
theorem isCanonical_results_zeros :
    (readout (ofIndex true 0x3D719799812DEA11) 10 = .ok ['0'] ∧ IsCanonical 10 ['0']) ∧
    (∃ e, evaluate ['1', '-', '1', '0', '1', '/', '1', '0', '0'] 4 = .ok e ∧
      e.text = ['-', '0', '.', '0', '1'] ∧ IsCanonical 4 ['-', '0', '.', '0', '1']) ∧
    ∃ s : Session, s.evaluate.buffer = ['3', '0', '0'] ∧ s.evaluate.inError = false ∧
      IsCanonical 10 ['3', '0', '0'] := by
  obtain ⟨hreadouts, hevaluations, hsessions⟩ := isCanonical_results
  have hzero : readout (ofIndex true 0x3D719799812DEA11) 10 = .ok ['0'] :=
    readout_eq_ok_iff.2 ⟨by decide +kernel, by decide +kernel⟩
  have hsome : (evaluate ['1', '-', '1', '0', '1', '/', '1', '0', '0'] 4).toOption.map
      Evaluation.text = some ['-', '0', '.', '0', '1'] := by
    decide +kernel
  obtain ⟨e, heval, htext⟩ := exists_evaluate_of_text hsome
  have hshown : ({ buffer := ['1', '2', '0', '+', '1', '8', '0'] } : Session).evaluate.buffer =
      ['3', '0', '0'] := by
    decide +kernel
  have hflag : ({ buffer := ['1', '2', '0', '+', '1', '8', '0'] } : Session).evaluate.inError =
      false := by
    decide +kernel
  exact ⟨⟨hzero, (hreadouts _ _).2 _ hzero⟩, ⟨e, heval, htext, htext ▸ hevaluations _ _ _ heval⟩,
    _, hshown, hflag, hshown ▸ (hsessions _ hflag).2⟩

end PocketCalc
