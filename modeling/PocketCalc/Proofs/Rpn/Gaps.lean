import PocketCalc.Proofs.Rpn.Separators

/-!
# Operands with nothing between them

Conversion does not mind an operand right after another one.  But each token that follows an operand
without going on with it (`gaps`) leaves a number that no operator needs (`Path.countP_isNumber`).
Evaluation finds these numbers on its stack in the end, one value more than there are gaps
(`eq_gaps_of_leftover`).

Main statement: `eq_gaps_of_leftover`.
-/

namespace PocketCalc

/-- The token goes on with an operand that ends right before it. -/
def Token.followsOperand : Token → Bool
  | op _ | rparen => true
  | _ => false

namespace Rpn

open Token Conversion

/-- The number of places where an operand ends and the next token does not go on with it. -/
def gaps : List Token → Nat
  | t :: u :: rest => (if t.endsOperand && !u.followsOperand then 1 else 0) + gaps (u :: rest)
  | _ => 0

theorem gaps_concat (ts : List Token) (t : Token) :
    gaps (ts ++ [t]) =
      gaps ts + if ts.getLast?.any endsOperand && !t.followsOperand then 1 else 0 := by
  induction ts with
  | nil => rfl
  | cons u ts ih =>
    cases ts with
    | nil => simp [gaps]
    | cons w rest =>
      simp only [List.cons_append, gaps, List.getLast?_cons_cons] at ih ⊢
      rw [ih, Nat.add_assoc]

theorem exists_gap {ts : List Token} (h : 0 < gaps ts) :
    ∃ us t u vs, ts = us ++ t :: u :: vs ∧ t.endsOperand = true ∧ u.followsOperand = false := by
  fun_induction gaps ts with
  | case1 t u rest ih =>
    by_cases hgap : (t.endsOperand && !u.followsOperand) = true
    · rw [Bool.and_eq_true, Bool.not_eq_true'] at hgap
      exact ⟨[], t, u, rest, rfl, hgap⟩
    · rw [if_neg hgap, Nat.zero_add] at h
      obtain ⟨us, t', u', vs, heq, hpair⟩ := ih h
      exact ⟨t :: us, t', u', vs, by rw [heq]; rfl, hpair⟩
  | case2 => cases h

/-! ### Conversion -/

namespace Conversion

/-- An operand is due unless one has just ended. -/
theorem Path.operandDue_eq {ts : List Token} {s : Conversion} (h : Path {} ts s) :
    s.operandDue = !ts.getLast?.any endsOperand := by
  cases h with
  | nil => rfl
  | snoc _ hst => simpa using hst.operandDue_eq

/-- **Each number read is needed by an operator, is the operand that has just ended, or stands
before a gap.** -/
theorem Path.countP_isNumber {ts : List Token} {s : Conversion} (h : Path {} ts s) :
    ts.countP isNumber = ts.countP isBinary + (if s.operandDue then 0 else 1) + gaps ts := by
  induction h with
  | nil => rfl
  | @snoc ts s' s'' t hts hst ih =>
    have hlast : ts.getLast?.any endsOperand = !s'.operandDue := by simp [hts.operandDue_eq]
    rw [List.countP_append, List.countP_append, gaps_concat, hlast, ih]
    cases hst with
    | number out stack due text | func out stack due f | lparen out stack due | neg out due _
    | comma out due _ =>
      cases due <;> simp [isNumber, isBinary, followsOperand] <;> omega
    | op out o _ | rparen out _ _ | rparenCall out f _ =>
      simp [isNumber, isBinary, followsOperand]

end Conversion

theorem countP_isNumber_of_ofTokens {ts r : List Token} (hr : ofTokens ts = .ok r) :
    ts.countP isNumber = ts.countP isBinary + 1 + gaps ts := by
  obtain ⟨s, hpath, hdue, -⟩ := ofTokens_eq_ok_iff.1 hr
  simpa [hdue] using hpath.countP_isNumber

/-! ### Evaluation -/

theorem evalFrom_ne_leftover (stack : List Float) (ts : List Token) (n : Nat) :
    evalFrom stack ts ≠ .error (.leftover n) := by
  intro h
  obtain ⟨t, -, stack', hst⟩ := exists_evalStep_of_evalFrom h
  rcases evalStep_eq_error_cases hst with ⟨text, -, herror⟩ | herror | ⟨-, herror⟩
  · cases herror
  · cases herror
  · cases herror

/-- Values are left over only if there are none or several. -/
theorem exists_evalFrom_of_leftover {r : List Token} {n : Nat}
    (h : eval r = .error (.leftover n)) :
    ∃ stack, evalFrom [] r = .ok stack ∧ stack.length = n ∧ n ≠ 1 := by
  rcases eval_eq_error_iff.1 h with hfrom | ⟨stack, hstack, hlen, herror⟩
  · exact absurd hfrom (evalFrom_ne_leftover [] r n)
  · obtain rfl := EvalError.leftover.inj herror
    exact ⟨stack, hstack, rfl, hlen⟩

/-- **The values left over are one more than the gaps among the tokens, of which there is one at
least.** -/
theorem eq_gaps_of_leftover {ts r : List Token} {n : Nat} (hr : ofTokens ts = .ok r)
    (h : eval r = .error (.leftover n)) : n = gaps ts + 1 ∧ 0 < gaps ts := by
  obtain ⟨stack, hstack, rfl, hne⟩ := exists_evalFrom_of_leftover h
  have hlen := length_of_ofTokens hr hstack
  have hcount := countP_isNumber_of_ofTokens hr
  omega

end Rpn

end PocketCalc
