import PocketCalc.Proofs.Rpn.Balance

/-!
# The order of the numbers in RPN

Operations wait on the stack and change places with what is read after them.  Numbers never wait:
each is written when it is read, so that they keep their order (`Path.keepsOrder`).

Hence the RPN of tokens is a rearrangement of the numbers and operations among them which leaves the
numbers in their order, and evaluation meets no token in it that is neither.

Main statement: `ofTokens_rearranges`.
-/

namespace PocketCalc.Rpn

open Token

namespace Conversion

/-- The numbers read have been written in their order, and no number waits. -/
structure KeepsOrder (ts output stack : List Token) : Prop where
  /-- The numbers written are the numbers read. -/
  written : output.filter isNumber = ts.filter isNumber
  /-- What waits are no numbers. -/
  waiting : stack.filter isNumber = []

section

variable {ts out stack pending rest : List Token} {t : Token}

theorem KeepsOrder.read (h : KeepsOrder ts out stack) (ht : isNumber t = false) :
    KeepsOrder (ts ++ [t]) out stack :=
  ⟨by simp [h.written, ht], h.waiting⟩

theorem KeepsOrder.push (h : KeepsOrder ts out stack) (ht : isNumber t = false) :
    KeepsOrder ts out (t :: stack) :=
  ⟨h.written, by rw [List.filter_cons_of_neg (by simp [ht]), h.waiting]⟩

theorem KeepsOrder.unstack (h : KeepsOrder ts out (pending ++ rest)) :
    KeepsOrder ts (out ++ pending) rest := by
  have hnone := h.waiting
  rw [List.filter_append, List.append_eq_nil_iff] at hnone
  exact ⟨by rw [List.filter_append, hnone.1, List.append_nil, h.written], hnone.2⟩

theorem KeepsOrder.pop (h : KeepsOrder ts out (t :: stack)) : KeepsOrder ts out stack := by
  have hnone : ([t] ++ stack).filter isNumber = [] := h.waiting
  rw [List.filter_append, List.append_eq_nil_iff] at hnone
  exact ⟨h.written, hnone.2⟩

end

theorem KeepsOrder.step {ts : List Token} {s s' : Conversion} {t : Token}
    (h : KeepsOrder ts s.output s.stack) (hst : Step s t s') :
    KeepsOrder (ts ++ [t]) s'.output s'.stack := by
  cases hst with
  | number out stack due text =>
    exact ⟨by rw [List.filter_append, List.filter_append, h.written], h.waiting⟩
  | func | lparen => exact (h.read rfl).push rfl
  | neg out due hsplit => exact (h.read rfl).unstack.push rfl
  | op out o hsplit => exact (h.read rfl).unstack.push rfl
  | comma out due hp => exact (h.read rfl).unstack
  | rparen out hp _ => exact (h.read rfl).unstack.pop
  | @rparenCall pending rest out f hp =>
    have hcall : KeepsOrder (ts ++ [.rparen]) (out ++ pending) ([.func f] ++ rest) :=
      (h.read rfl).unstack.pop
    exact hcall.unstack

theorem Path.keepsOrder {ts : List Token} {s : Conversion} (h : Path {} ts s) :
    KeepsOrder ts s.output s.stack := by
  induction h with
  | nil => exact ⟨rfl, rfl⟩
  | snoc _ hst ih => exact ih.step hst

end Conversion

open Conversion

/-! ### The RPN of tokens -/

/-- The RPN has the numbers and operations of the tokens, each as often. -/
theorem perm_of_ofTokens {ts r : List Token} (h : ofTokens ts = .ok r) :
    r.Perm (ts.filter isWritten) := by
  have hwritten : r.filter isWritten = r :=
    List.filter_eq_self.2 fun _ => isWritten_of_mem_ofTokens h
  obtain ⟨s, hpath, -, -, rfl⟩ := ofTokens_eq_ok_iff.1 h
  rw [← hwritten]
  exact hpath.perm

/-- The RPN has the numbers of the tokens in the same order. -/
theorem filter_isNumber_of_ofTokens {ts r : List Token} (h : ofTokens ts = .ok r) :
    r.filter isNumber = ts.filter isNumber := by
  obtain ⟨s, hpath, -, -, rfl⟩ := ofTokens_eq_ok_iff.1 h
  have horder := hpath.keepsOrder
  rw [List.filter_append, horder.written, horder.waiting, List.append_nil]

/-- Numbers and operations are what evaluation expects. -/
theorem eval_ne_notOperation {ts : List Token} (hts : ∀ t ∈ ts, isWritten t = true)
    (text : List Char) : eval ts ≠ .error (.notOperation text) := by
  intro h
  rcases eval_eq_error_iff.1 h with hfrom | ⟨stack, -, -, herror⟩
  · obtain ⟨t, ht, stack, hst⟩ := exists_evalStep_of_evalFrom hfrom
    rcases evalStep_eq_error_cases hst with ⟨_, -, herror⟩ | herror | ⟨hwritten, -⟩
    · cases herror
    · cases herror
    · rw [hts t ht] at hwritten
      cases hwritten
  · cases herror

/-- **Conversion rearranges the tokens and loses, doubles and invents none.**  The RPN is a
rearrangement of the tokens without parentheses and commas, with the numbers in the order in which
they were read; hence evaluation meets only numbers and operations. -/
theorem ofTokens_rearranges {ts r : List Token} (h : ofTokens ts = .ok r) :
    r.Perm (ts.filter isWritten) ∧ r.filter isNumber = ts.filter isNumber ∧
      ∀ text, eval r ≠ .error (.notOperation text) :=
  ⟨perm_of_ofTokens h, filter_isNumber_of_ofTokens h,
    eval_ne_notOperation fun _ => isWritten_of_mem_ofTokens h⟩

/-- In `-sin(1+2*3,4)-5` tokens are moved by an operator, by the comma, by the closing parenthesis
and at the end. -/
theorem ofTokens_rearranges_call :
    ofTokens [neg, func .sin, lparen, number ['1'], op .add, number ['2'], op .mul, number ['3'],
        comma, number ['4'], rparen, op .sub, number ['5']] =
      .ok [number ['1'], number ['2'], number ['3'], op .mul, op .add, number ['4'], func .sin, neg,
        number ['5'], op .sub] ∧
    [number ['1'], number ['2'], number ['3'], op .mul, op .add, number ['4'], func .sin, neg,
        number ['5'], op .sub].Perm
      [neg, func .sin, number ['1'], op .add, number ['2'], op .mul, number ['3'], number ['4'],
        op .sub, number ['5']] ∧
    ∀ text, eval [number ['1'], number ['2'], number ['3'], op .mul, op .add, number ['4'],
      func .sin, neg, number ['5'], op .sub] ≠ .error (.notOperation text) := by
  have hr : ofTokens [neg, func .sin, lparen, number ['1'], op .add, number ['2'], op .mul,
        number ['3'], comma, number ['4'], rparen, op .sub, number ['5']] =
      .ok [number ['1'], number ['2'], number ['3'], op .mul, op .add, number ['4'], func .sin, neg,
        number ['5'], op .sub] := rfl
  obtain ⟨hperm, -, heval⟩ := ofTokens_rearranges hr
  exact ⟨hr, hperm, heval⟩

end PocketCalc.Rpn
