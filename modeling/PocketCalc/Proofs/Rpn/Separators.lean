import PocketCalc.Proofs.Evaluation
import PocketCalc.Proofs.Rpn.Balance

/-!
# Separators of arguments

No function takes more than one argument, but conversion does not refuse a comma inside a group.  A
comma right after an operand leaves a number that no operator needs (`Surplus.comma`), hence a value
too many, and there is no outcome (`evaluate_of_comma_after_operand`).

Conversion does not ask whether an operand is due when it meets a comma, as it does when it meets a
closing parenthesis.  So a comma where an operand is due can go unnoticed: nothing need have been
written in its group, and an operator before it can take an operand from outside the group
(`exists_evaluate_of_comma`).

Main statement: `evaluate_of_comma_after_operand`.
-/

namespace PocketCalc

/-- An operand can end with the token. -/
def Token.endsOperand : Token → Bool
  | number _ | rparen => true
  | _ => false

namespace Rpn

open Conversion

/-- An operand is due unless the token has ended one. -/
theorem Conversion.Step.operandDue_eq {s s' : Conversion} {t : Token} (h : Step s t s') :
    s'.operandDue = !t.endsOperand := by
  cases h with
  | number | func | lparen | neg | op | comma | rparen | rparenCall => rfl

theorem surplus_nil : Surplus 0 [] {} := Nat.le_refl 0

/-- Tokens with a comma right after an operand have no value. -/
theorem eval_ne_ok_of_comma {us vs r : List Token} {t : Token} (ht : t.endsOperand = true)
    (hr : ofTokens (us ++ [t] ++ [.comma] ++ vs) = .ok r) (v : Float) : eval r ≠ .ok v := by
  intro hv
  obtain ⟨s, hpath, hdue, -⟩ := ofTokens_eq_ok_iff.1 hr
  obtain ⟨s₂, hcomma, hvs⟩ := hpath.split
  obtain ⟨s₁, hoperand, hcomma⟩ := hcomma.of_concat
  obtain ⟨s₀, hus, hst⟩ := hoperand.of_concat
  -- the number that the comma leaves is still there in the end
  have hbefore := (surplus_nil.path hus).step hst
  have hended : s₁.operandDue = false := by rw [hst.operandDue_eq, ht, Bool.not_true]
  have hafter := (hbefore.comma hended hcomma).path hvs
  have hcount := countP_isNumber_of_eval hr hv
  simp only [Surplus, hdue, List.nil_append, Bool.false_eq_true, if_false] at hafter
  omega

/-- **A comma right after an operand has no outcome.**  Either the tokens of the text have no RPN,
or evaluation of their RPN fails. -/
theorem evaluate_of_comma_after_operand {text : List Char} {us vs : List Token} {t : Token}
    (hts : tokenize (normalize text) = .ok (us ++ t :: .comma :: vs)) (ht : t.endsOperand = true)
    (places : Nat) :
    (∃ e, evaluate text places = .error (.grammatical e)) ∨
      ∃ e, evaluate text places = .error (.evaluation e) := by
  have hsplit : us ++ t :: .comma :: vs = us ++ [t] ++ [.comma] ++ vs := by simp
  rw [hsplit] at hts
  cases heval : evaluate text places with
  | ok e =>
    obtain ⟨ts, r, hts', hr, hv, -⟩ := evaluate_eq_ok_iff.1 heval
    obtain rfl := Except.ok.inj (hts.symm.trans hts')
    exact absurd hv (eval_ne_ok_of_comma ht hr _)
  | error error =>
    rcases evaluate_eq_error_iff.1 heval with ⟨e, he, -⟩ | ⟨ts, hts', h⟩
    · rw [hts] at he
      cases he
    obtain rfl := Except.ok.inj (hts.symm.trans hts')
    rcases h with ⟨e, -, rfl⟩ | ⟨r, hr, ⟨e, -, rfl⟩ | ⟨v, -, hv, -⟩⟩
    · exact .inl ⟨e, rfl⟩
    · exact .inr ⟨e, rfl⟩
    · exact absurd hv (eval_ne_ok_of_comma ht hr v)

/-- The function in `sin(1,2)` takes the second of two values. -/
theorem evaluate_sin_of_two :
    tokenize (normalize ['s', 'i', 'n', '(', '1', ',', '2', ')']) =
      .ok [.func .sin, .lparen, .number ['1'], .comma, .number ['2'], .rparen] ∧
    ((∃ e, evaluate ['s', 'i', 'n', '(', '1', ',', '2', ')'] 10 = .error (.grammatical e)) ∨
      ∃ e, evaluate ['s', 'i', 'n', '(', '1', ',', '2', ')'] 10 = .error (.evaluation e)) := by
  have htokens : tokenize (normalize ['s', 'i', 'n', '(', '1', ',', '2', ')']) =
      .ok ([.func .sin, .lparen] ++ .number ['1'] :: .comma :: [.number ['2'], .rparen]) := rfl
  exact ⟨htokens, evaluate_of_comma_after_operand htokens rfl 10⟩

/-- In `3*(1+,2)` the sum takes the `3` and the `1`, and the product what it finds then. -/
theorem exists_evaluate_of_comma :
    ∃ ts e, tokenize (normalize ['3', '*', '(', '1', '+', ',', '2', ')']) = .ok ts ∧ .comma ∈ ts ∧
      evaluate ['3', '*', '(', '1', '+', ',', '2', ')'] 10 = .ok e ∧ e.text = ['8'] := by
  have htokens : tokenize (normalize ['3', '*', '(', '1', '+', ',', '2', ')']) =
      .ok [.number ['3'], .op .mul, .lparen, .number ['1'], .op .add, .comma, .number ['2'],
        .rparen] := rfl
  obtain ⟨e, heval, htext⟩ := exists_evaluate_of_text
    (show (evaluate ['3', '*', '(', '1', '+', ',', '2', ')'] 10).toOption.map Evaluation.text =
      some ['8'] by decide +kernel)
  exact ⟨_, e, htokens, by decide, heval, htext⟩

end Rpn

end PocketCalc
