import PocketCalc.Proofs.Binary64.Numeral
import PocketCalc.Proofs.Rpn.Height
import PocketCalc.Proofs.Rpn.Order
import PocketCalc.Proofs.Token.Lexical

/-!
# The outcome of the RPN of a text

Without commas, the RPN of a text finds all its operands (`exists_height_ofTokens`).  So evaluation
fails over the first number that cannot be read, and as conversion keeps the numbers in their order
(`filter_isNumber_of_ofTokens`), this is the leftmost one of the text.  If all of them can be read,
the values left are as many as there are more numbers than binary operators.

Main statement: `eval_of_tokenize`.
-/

namespace PocketCalc

/-- The text of a number without a digit or with more than one point. -/
def Token.misspelled? : Token → Option (List Char)
  | number text => if Binary64.Numeral.isDecimal text then none else some text
  | _ => none

namespace Rpn

open Token

/-! ### The first number that cannot be read -/

/-- Digits and points cannot be read if they are misspelled. -/
theorem unread?_eq_misspelled? {t : Token}
    (h : ∀ text, t = .number text → ∀ c ∈ text, isFigure c = true) :
    t.unread? = t.misspelled? := by
  cases t with
  | number text =>
    have hread := Binary64.Numeral.isSome_read?_iff (h text rfl)
    simp only [unread?, misspelled?, hread]
  | op | neg | func | lparen | rparen | comma => rfl

theorem findSome?_unread?_eq {ts : List Token}
    (h : ∀ text, .number text ∈ ts → ∀ c ∈ text, isFigure c = true) :
    ts.findSome? unread? = ts.findSome? misspelled? := by
  induction ts with
  | nil => rfl
  | cons t ts ih =>
    have hhead : t.unread? = t.misspelled? := by
      refine unread?_eq_misspelled? fun text ht => h text ?_
      rw [ht]
      exact List.mem_cons_self
    have htail := ih fun text ht => h text (List.mem_cons_of_mem t ht)
    rw [List.findSome?_cons, List.findSome?_cons, hhead, htail]

theorem findSome?_unread?_filter (ts : List Token) :
    (ts.filter isNumber).findSome? unread? = ts.findSome? unread? := by
  induction ts with
  | nil => rfl
  | cons t ts ih =>
    cases t with
    | number text => rw [List.filter_cons_of_pos rfl, List.findSome?_cons, List.findSome?_cons, ih]
    | op | neg | func | lparen | rparen | comma => exact ih

/-- In the RPN of a text, the first number that cannot be read is the leftmost one that is
misspelled. -/
theorem findSome?_unread?_of_ofTokens {before : Option Token} {ts r : List Token}
    (hlexical : Lexical before ts) (hr : ofTokens ts = .ok r) :
    r.findSome? unread? = ts.findSome? misspelled? := by
  calc r.findSome? unread? = (r.filter isNumber).findSome? unread? :=
        (findSome?_unread?_filter r).symm
    _ = ts.findSome? unread? := by
        rw [filter_isNumber_of_ofTokens hr, findSome?_unread?_filter]
    _ = ts.findSome? misspelled? :=
        findSome?_unread?_eq fun text ht => (hlexical.figures_of_mem ht).2

/-! ### The outcome -/

/-- **What evaluation of the RPN of a text without commas comes to.**  If a number has no digit or
more than one point, evaluation fails over the leftmost such number.  Otherwise there are more
numbers than binary operators: with one more there is a value, and with `n` more, `n` values are
left over.  No operation lacks a value, and no token is out of place. -/
theorem eval_of_tokenize {text : List Char} {ts r : List Token} (hts : tokenize text = .ok ts)
    (hcomma : .comma ∉ ts) (hr : ofTokens ts = .ok r) :
    (∀ u, ts.findSome? misspelled? = some u → eval r = .error (.badNumber u)) ∧
      (ts.findSome? misspelled? = none →
        ∃ n, ts.countP isNumber = ts.countP isBinary + n ∧ 1 ≤ n ∧
          (n = 1 → ∃ v, eval r = .ok v) ∧ (2 ≤ n → eval r = .error (.leftover n))) ∧
      ∀ u, eval r ≠ .error (.stackEmpty u) ∧ eval r ≠ .error (.notOperation u) := by
  have hlexical := lexical_of_tokenize hts
  obtain ⟨n, hn, hpos⟩ := exists_height_ofTokens hcomma hlexical.ne_func_neg hr
  have hheight : height ([] : List Float).length r = some n := hn
  have hwritten (t : Token) (ht : t ∈ r) : isWritten t = true := isWritten_of_mem_ofTokens hr ht
  rw [← findSome?_unread?_of_ofTokens hlexical hr]
  refine ⟨fun u hu => ?_, fun hread => ?_, fun u => ?_⟩
  · exact eval_eq_error_iff.2 (.inl (evalFrom_of_unread hwritten hheight hu))
  · obtain ⟨stack, hstack, rfl⟩ :=
      exists_evalFrom_of_height hwritten (List.findSome?_eq_none_iff.1 hread) hheight
    have hcount := length_of_ofTokens hr hstack
    refine ⟨stack.length, by omega, hpos, fun hone => ?_, fun htwo => ?_⟩
    · obtain ⟨v, rfl⟩ := List.length_eq_one_iff.1 hone
      exact ⟨v, eval_eq_ok_iff.2 hstack⟩
    · exact eval_eq_error_iff.2 (.inr ⟨stack, hstack, by omega, rfl⟩)
  · constructor
    · intro herror
      rcases eval_error_of_height hwritten hn herror with ⟨text, h⟩ | h
      · cases h
      · cases h
    · exact eval_ne_notOperation hwritten u

/-- In `4-2..*.` the product comes first in the RPN, and its left number is the first that cannot be
read; in `2sin(3)4` there are three numbers and no operator between them. -/
theorem eval_of_tokenize_misspelled_and_leftover :
    (tokenize ['4', '-', '2', '.', '.', '*', '.'] =
        .ok [number ['4'], op .sub, number ['2', '.', '.'], op .mul, number ['.']] ∧
      ofTokens [number ['4'], op .sub, number ['2', '.', '.'], op .mul, number ['.']] =
        .ok [number ['4'], number ['2', '.', '.'], number ['.'], op .mul, op .sub] ∧
      eval [number ['4'], number ['2', '.', '.'], number ['.'], op .mul, op .sub] =
        .error (.badNumber ['2', '.', '.'])) ∧
    tokenize ['2', 's', 'i', 'n', '(', '3', ')', '4'] =
        .ok [number ['2'], func .sin, lparen, number ['3'], rparen, number ['4']] ∧
      ofTokens [number ['2'], func .sin, lparen, number ['3'], rparen, number ['4']] =
        .ok [number ['2'], number ['3'], func .sin, number ['4']] ∧
      eval [number ['2'], number ['3'], func .sin, number ['4']] = .error (.leftover 3) := by
  have hproduct : tokenize ['4', '-', '2', '.', '.', '*', '.'] =
      .ok [number ['4'], op .sub, number ['2', '.', '.'], op .mul, number ['.']] := rfl
  have hcall : tokenize ['2', 's', 'i', 'n', '(', '3', ')', '4'] =
      .ok [number ['2'], func .sin, lparen, number ['3'], rparen, number ['4']] := rfl
  refine ⟨⟨hproduct, rfl, ?_⟩, hcall, rfl, ?_⟩
  · exact (eval_of_tokenize hproduct (by decide) rfl).1 _ (by decide)
  · obtain ⟨n, hn, -, -, hleftover⟩ := (eval_of_tokenize hcall (by decide) rfl).2.1 (by decide)
    have hthree : 3 = 0 + n := hn
    rw [Nat.zero_add] at hthree
    subst hthree
    exact hleftover (by decide)

end Rpn

end PocketCalc
