import PocketCalc.Evaluation
import PocketCalc.Proofs.Readout
import PocketCalc.Proofs.Token.Runs

/-!
# The stages of an evaluation

An evaluation has an outcome exactly when each stage has one (`evaluate_eq_ok_iff`), and otherwise
the error of the first stage that fails (`evaluate_eq_error_iff`).  The text of a decimal goes
through the stages as a number, after a minus sign if the decimal is negative, and its value is the
double that the whole text is read as (`Decimal.eval_rpn`).  As a readout is its own readout, the
text that an evaluation shows evaluates to itself (`evaluate_text_of_evaluate`).

Main statement: `evaluate_text_of_evaluate`.
-/

namespace PocketCalc

theorem mapError_bind_eq_ok_iff {α β ε ε' : Type} {x : Except ε α} {f : ε → ε'}
    {g : α → Except ε' β} {b : β} :
    (x.mapError f).bind g = .ok b ↔ ∃ a, x = .ok a ∧ g a = .ok b := by
  cases x with
  | error e => simp [Except.mapError, Except.bind]
  | ok a => simp [Except.mapError, Except.bind]

theorem mapError_bind_eq_error_iff {α β ε ε' : Type} {x : Except ε α} {f : ε → ε'}
    {g : α → Except ε' β} {e' : ε'} :
    (x.mapError f).bind g = .error e' ↔
      (∃ e, x = .error e ∧ e' = f e) ∨ ∃ a, x = .ok a ∧ g a = .error e' := by
  cases x with
  | error e => simp [Except.mapError, Except.bind, eq_comm]
  | ok a => simp [Except.mapError, Except.bind]

theorem evaluate_eq_ok_iff {expression : List Char} {places : Nat} {e : Evaluation} :
    evaluate expression places = .ok e ↔
      ∃ tokens rpn, tokenize (normalize expression) = .ok tokens ∧ Rpn.ofTokens tokens = .ok rpn ∧
        Rpn.eval rpn = .ok e.value ∧ readout e.value places = .ok e.text ∧
        e.trace = ⟨Token.textOfList tokens, Token.textOfList rpn⟩ := by
  unfold evaluate
  simp only [bind, mapError_bind_eq_ok_iff, pure, Except.pure, Except.ok.injEq]
  constructor
  · rintro ⟨tokens, htokens, rpn, hrpn, v, hv, t, ht, rfl⟩
    exact ⟨tokens, rpn, htokens, hrpn, hv, ht, rfl⟩
  · rintro ⟨tokens, rpn, htokens, hrpn, hv, ht, htrace⟩
    exact ⟨tokens, htokens, rpn, hrpn, e.value, hv, e.text, ht, by rw [← htrace]⟩

theorem evaluate_eq_error_iff {expression : List Char} {places : Nat} {error : CalcError} :
    evaluate expression places = .error error ↔
      (∃ e, tokenize (normalize expression) = .error e ∧ error = .lexical e) ∨
        ∃ tokens, tokenize (normalize expression) = .ok tokens ∧
          ((∃ e, Rpn.ofTokens tokens = .error e ∧ error = .grammatical e) ∨
            ∃ rpn, Rpn.ofTokens tokens = .ok rpn ∧
              ((∃ e, Rpn.eval rpn = .error e ∧ error = .evaluation e) ∨
                ∃ v e, Rpn.eval rpn = .ok v ∧ readout v places = .error e ∧
                  error = .format e)) := by
  simp only [evaluate, bind, mapError_bind_eq_error_iff, pure, Except.pure, reduceCtorEq,
    and_false, exists_false, or_false, exists_and_left]

theorem evaluate_eq_lexical_iff {expression : List Char} {places : Nat} {e : LexError} :
    evaluate expression places = .error (.lexical e) ↔
      tokenize (normalize expression) = .error e := by
  simp [evaluate_eq_error_iff]

theorem evaluate_eq_evaluation_iff {expression : List Char} {places : Nat} {e : EvalError} :
    evaluate expression places = .error (.evaluation e) ↔
      ∃ tokens rpn, tokenize (normalize expression) = .ok tokens ∧ Rpn.ofTokens tokens = .ok rpn ∧
        Rpn.eval rpn = .error e := by
  simp [evaluate_eq_error_iff]

/-- The evaluation behind a text that is computed. -/
theorem exists_evaluate_of_text {expression : List Char} {places : Nat} {text : List Char}
    (h : (evaluate expression places).toOption.map Evaluation.text = some text) :
    ∃ e, evaluate expression places = .ok e ∧ e.text = text := by
  cases heval : evaluate expression places with
  | error error =>
    rw [heval] at h
    cases h
  | ok e =>
    rw [heval] at h
    exact ⟨e, rfl, Option.some.inj h⟩

/-! ### The text of a decimal as an expression -/

namespace Decimal

/-- The lexemes of the text of a decimal. -/
def lexemes (d : Decimal) : List Lexeme :=
  (if d.coeff < 0 then [.mark '-'] else []) ++ [.figures d.figures]

/-- The tokens of the text of a decimal. -/
def tokens (d : Decimal) : List Token :=
  (if d.coeff < 0 then [.neg] else []) ++ [.number d.figures]

/-- The RPN of the text of a decimal. -/
def rpn (d : Decimal) : List Token :=
  .number d.figures :: if d.coeff < 0 then [.neg] else []

variable (d : Decimal)

theorem lexemes_text : PocketCalc.lexemes d.text = d.lexemes := by
  have hne : d.figures ≠ [] := by
    obtain ⟨c, rest, hcons, -⟩ := d.exists_figures_eq_cons
    simp [hcons]
  have hfigures := lexemes_of_figures hne fun _ => isFigure_of_mem_figures
  rw [text_eq, Decimal.lexemes]
  by_cases hneg : d.coeff < 0
  · rw [if_pos hneg, if_pos hneg]
    exact congrArg (Lexeme.join '-') hfigures
  · rw [if_neg hneg, if_neg hneg]
    exact hfigures

/-- The text is in plain spelling already. -/
theorem normalize_text : normalize d.text = d.text := by
  rw [normalize, lexemes_text, text_eq, Decimal.lexemes]
  by_cases hneg : d.coeff < 0
  · rw [if_pos hneg, if_pos hneg]
    exact congrArg ('-' :: ·) (List.append_nil _)
  · rw [if_neg hneg, if_neg hneg]
    exact List.append_nil _

theorem tokenize_text : tokenize d.text = .ok d.tokens := by
  rw [tokenize, lexemes_text, Decimal.lexemes, tokens]
  by_cases hneg : d.coeff < 0
  · rw [if_pos hneg, if_pos hneg]
    rfl
  · rw [if_neg hneg, if_neg hneg]
    rfl

theorem ofTokens_tokens : Rpn.ofTokens d.tokens = .ok d.rpn := by
  rw [tokens, rpn]
  by_cases hneg : d.coeff < 0
  · rw [if_pos hneg]
    rfl
  · rw [if_neg hneg]
    rfl

/-- A minus sign in front of the figures gives the double that the text with its sign stands
for. -/
theorem eval_rpn : Rpn.eval d.rpn = .ok d.toFloat := by
  obtain ⟨c, rest, hcons, hc⟩ := d.exists_figures_eq_cons
  have hread : Binary64.Numeral.read? d.figures = some (Binary64.ofIndex false
      (Binary64.ofScientific d.coeff.natAbs (-d.places))) := by
    rw [hcons, Binary64.Numeral.read?_of_isFigure (isFigure_of_isDigit hc), ← hcons,
      d.decimal?_figures]
    rfl
  rw [rpn, toFloat]
  by_cases hneg : d.coeff < 0
  · -- the figures are read without the sign, and the minus sign puts it back
    have hminus := Binary64.neg_ofIndex false (Binary64.ofScientific_le d.coeff.natAbs (-d.places))
    simp [hneg, Rpn.eval, Rpn.evalFrom, Rpn.evalStep, Rpn.result, hread, hminus, bind, Except.bind]
  · simp [hneg, Rpn.eval, Rpn.evalFrom, Rpn.evalStep, Rpn.result, hread, bind, Except.bind]

end Decimal

/-- What an evaluation shows is an expression that is shown the same. -/
theorem evaluate_text_of_evaluate {expression : List Char} {places : Nat} {e : Evaluation}
    (h : evaluate expression places = .ok e) :
    ∃ e', evaluate e.text places = .ok e' ∧ e'.text = e.text := by
  obtain ⟨-, -, -, -, -, hreadout, -⟩ := evaluate_eq_ok_iff.1 h
  obtain ⟨d, htext, hagain⟩ := readout_toFloat hreadout
  refine ⟨⟨e.text, d.toFloat, ⟨Token.textOfList d.tokens, Token.textOfList d.rpn⟩⟩,
    evaluate_eq_ok_iff.2 ⟨d.tokens, d.rpn, ?_, d.ofTokens_tokens, d.eval_rpn, hagain, rfl⟩, rfl⟩
  rw [htext, d.normalize_text, d.tokenize_text]

end PocketCalc
