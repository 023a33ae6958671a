import Mathlib.Logic.Function.Iterate
import PocketCalc.Proofs.Evaluation
import PocketCalc.Session

/-!
# Evaluating again

An evaluation that fails shows the marker, and nothing happens while it is shown.  One that succeeds
shows a text that evaluates to itself, so that only the trace can change when it is evaluated again,
and nothing after that.

Main statement: `iterate_evaluate`.
-/

namespace PocketCalc.Session

variable {s : Session}

theorem evaluate_of_inError (h : s.inError = true) : s.evaluate = s := if_pos h

theorem evaluate_of_eq_ok {e : Evaluation} (h : s.inError = false)
    (heval : PocketCalc.evaluate s.buffer s.settings.places = .ok e) :
    s.evaluate = { s with buffer := e.text, lastError := none, lastTrace := some e.trace } := by
  simp [Session.evaluate, h, heval]

/-- After an evaluation the marker is shown, or a result is. -/
theorem evaluate_cases (s : Session) :
    s.evaluate.inError = true ∨
      ∃ e, s.inError = false ∧ PocketCalc.evaluate s.buffer s.settings.places = .ok e := by
  by_cases herror : s.inError = true
  · rw [evaluate_of_inError herror]
    exact .inl herror
  · rw [Bool.not_eq_true] at herror
    cases heval : PocketCalc.evaluate s.buffer s.settings.places with
    | error error =>
      left
      simp [Session.evaluate, herror, heval]
    | ok e => exact .inr ⟨e, herror, rfl⟩

/-- Evaluating twice shows what evaluating once does, and evaluating once more changes nothing. -/
theorem evaluate_evaluate (s : Session) :
    s.evaluate.evaluate.buffer = s.evaluate.buffer ∧
      s.evaluate.evaluate.inError = s.evaluate.inError ∧
      s.evaluate.evaluate.evaluate = s.evaluate.evaluate := by
  rcases evaluate_cases s with herror | ⟨e, herror, heval⟩
  · simp only [evaluate_of_inError herror, and_self]
  · obtain ⟨e', heval', htext⟩ := evaluate_text_of_evaluate heval
    -- the third evaluation has the same text before it as the second
    have hsecond := evaluate_of_eq_ok
      (s := { s with buffer := e.text, lastError := none, lastTrace := some e.trace }) herror heval'
    have hthird := evaluate_of_eq_ok
      (s := { s with buffer := e'.text, lastError := none, lastTrace := some e'.trace }) herror
      (htext ▸ heval')
    rw [evaluate_of_eq_ok herror heval, hsecond]
    exact ⟨htext, rfl, hthird⟩

/-- **However often one evaluates, the text and the flag are those after the first time, and the
whole session is the one after the second time at the latest.**  A result that is shown is shown
again when it is evaluated. -/
theorem iterate_evaluate (s : Session) :
    (∀ n, (evaluate^[n + 1] s).buffer = s.evaluate.buffer ∧
      (evaluate^[n + 1] s).inError = s.evaluate.inError) ∧
    (∀ n, evaluate^[n + 2] s = s.evaluate.evaluate) ∧
    ∀ e, PocketCalc.evaluate s.buffer s.settings.places = .ok e →
      ∃ e', PocketCalc.evaluate e.text s.settings.places = .ok e' ∧ e'.text = e.text := by
  obtain ⟨hbuffer, hflag, hfixed⟩ := evaluate_evaluate s
  have hiterate (n : ℕ) : evaluate^[n + 2] s = s.evaluate.evaluate := by
    rw [Function.iterate_add_apply]
    exact Function.iterate_fixed hfixed n
  refine ⟨fun n => ?_, hiterate, fun _ => evaluate_text_of_evaluate⟩
  cases n with
  | zero => exact ⟨rfl, rfl⟩
  | succ n =>
    rw [hiterate]
    exact ⟨hbuffer, hflag⟩

/-- The sign of `2-7` comes back as the sign in front of an operand. -/
theorem iterate_evaluate_negative :
    (evaluate^[3] ({ buffer := ['2', '-', '7'] } : Session)).buffer = ['-', '5'] ∧
      ∃ e, PocketCalc.evaluate ['2', '-', '7'] 10 = .ok e ∧ e.text = ['-', '5'] ∧
        ∃ e', PocketCalc.evaluate ['-', '5'] 10 = .ok e' ∧ e'.text = ['-', '5'] := by
  obtain ⟨hrepeated, -, hagain⟩ := iterate_evaluate { buffer := ['2', '-', '7'] }
  have hfirst : (({ buffer := ['2', '-', '7'] } : Session).evaluate).buffer = ['-', '5'] := by
    decide +kernel
  have hshown : (PocketCalc.evaluate ['2', '-', '7'] 10).toOption.map Evaluation.text =
      some ['-', '5'] := by
    decide +kernel
  refine ⟨(hrepeated 2).1.trans hfirst, ?_⟩
  cases heval : PocketCalc.evaluate ['2', '-', '7'] 10 with
  | error error =>
    rw [heval] at hshown
    cases hshown
  | ok e =>
    rw [heval] at hshown
    have htext : e.text = ['-', '5'] := Option.some.inj hshown
    obtain ⟨e', heval', htext'⟩ := hagain e heval
    rw [htext] at heval' htext'
    exact ⟨e, rfl, htext, e', heval', htext'⟩

end PocketCalc.Session
