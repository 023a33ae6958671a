import Mathlib.Tactic.ByContra
import PocketCalc.Proofs.Rpn.Balance
import PocketCalc.Proofs.Rpn.Postorder
import PocketCalc.Proofs.Token.Lexical

/-!
# Only expressions have a value

Conversion alone accepts tokens that are no expression, such as two numbers in a row: it checks
that an operand stands before each operator, but not that an operator stands between two operands.
Each operand too many leaves a value too many, which evaluation refuses.

While tokens are read there are never fewer numbers than the operators need (`Tracks.enough`).  As
long as there are no more than that, the tokens read so far are the beginning of an expression:
once an operand has ended, each open group holds an expression (`EndsOperand`), and while an operand
is due, any operand turns what was read into such tokens (`AwaitsOperand`).

Main statement: `derives_of_tokenize_of_eval`.
-/

namespace PocketCalc

/-! ### Extending an expression by an operator and an operand -/

section

variable {ts us : List Token} {e e' : Expr}

theorem Derives.exists_power_append (h : Derives .power ts e) (hus : Derives .operand us e') :
    ∃ e'', Derives .power (ts ++ .op .pow :: us) e'' := by
  generalize hlevel : Level.power = level at h
  induction h with
  | ofOperand h => exact ⟨_, .power h (.ofOperand hus)⟩
  -- powers group from the right: the new one goes into the last operand
  | power hl _ _ ihr =>
    obtain ⟨e'', h''⟩ := ihr rfl
    exact ⟨_, by simpa using Derives.power hl h''⟩
  | _ => cases hlevel

theorem Derives.exists_product_append {o : BinOp} (ho : o ≠ .add ∧ o ≠ .sub)
    (h : Derives .product ts e) (hus : Derives .operand us e') :
    ∃ e'', Derives .product (ts ++ .op o :: us) e'' := by
  by_cases hpow : o = .pow
  · subst hpow
    cases h with
    | ofPower h =>
      obtain ⟨e'', h''⟩ := h.exists_power_append hus
      exact ⟨_, .ofPower h''⟩
    | product ho' hl hr =>
      obtain ⟨e'', h''⟩ := hr.exists_power_append hus
      exact ⟨_, by simpa using Derives.product ho' hl h''⟩
  · refine ⟨_, .product ?_ h (.ofOperand hus)⟩
    cases o <;> simp_all

/-- An expression, an operator and an operand make an expression, however they group. -/
theorem Derives.exists_sum_append (o : BinOp) (h : Derives .sum ts e)
    (hus : Derives .operand us e') : ∃ e'', Derives .sum (ts ++ .op o :: us) e'' := by
  by_cases ho : o = .add ∨ o = .sub
  · exact ⟨_, .sum ho h (.ofPower (.ofOperand hus))⟩
  · cases h with
    | ofProduct h =>
      obtain ⟨e'', h''⟩ := h.exists_product_append (not_or.1 ho) hus
      exact ⟨_, .ofProduct h''⟩
    | sum ho' hl hr =>
      obtain ⟨e'', h''⟩ := hr.exists_product_append (not_or.1 ho) hus
      exact ⟨_, by simpa using Derives.sum ho' hl h''⟩

end

namespace Rpn

/-! ### Beginnings of expressions -/

/-- No minus sign of `us` would follow a function at the end of `ts`. -/
def Meets (ts us : List Token) : Prop :=
  ∀ f, ts.getLast? = some (.func f) → us.head? ≠ some .neg

/-- The tokens end with an operand, within the given number of open groups: the innermost group
holds an expression so far, and ending the group gives an operand for the tokens before it. -/
def EndsOperand : Nat → List Token → Prop
  | 0, ts => ∃ e, Derives .sum ts e
  | depth + 1, ts => ∃ before inside e, ts = before ++ .lparen :: inside ∧ Derives .sum inside e ∧
      ∀ us e', Derives .operand us e' → Meets before us → EndsOperand depth (before ++ us)

/-- Whatever operand comes next, the tokens then end with an operand. -/
def AwaitsOperand (depth : Nat) (ts : List Token) : Prop :=
  ∀ us e, Derives .operand us e → Meets ts us → EndsOperand depth (ts ++ us)

theorem awaitsOperand_nil : AwaitsOperand 0 [] :=
  fun _ _ h _ => ⟨_, .ofProduct (.ofPower (.ofOperand h))⟩

theorem AwaitsOperand.number {depth : Nat} {ts : List Token} (h : AwaitsOperand depth ts)
    (text : List Char) : EndsOperand depth (ts ++ [.number text]) :=
  h _ _ (.number text) fun _ _ => by simp

theorem AwaitsOperand.neg {depth : Nat} {ts : List Token} (h : AwaitsOperand depth ts)
    (hlast : ∀ f, ts.getLast? ≠ some (.func f)) : AwaitsOperand depth (ts ++ [.neg]) := by
  intro us e hus _
  have hend := h (.neg :: us) _ (.neg hus) fun f hf => absurd hf (hlast f)
  simpa using hend

theorem AwaitsOperand.func {depth : Nat} {ts : List Token} (h : AwaitsOperand depth ts)
    (f : Func) : AwaitsOperand depth (ts ++ [.func f]) := by
  intro us e hus hmeets
  have hend := h (.func f :: us) _ (.call f (hmeets f (by simp)) hus) fun _ _ => by simp
  simpa using hend

theorem AwaitsOperand.lparen {depth : Nat} {ts : List Token} (h : AwaitsOperand depth ts) :
    AwaitsOperand (depth + 1) (ts ++ [.lparen]) := by
  intro us e hus _
  exact ⟨ts, us, e, by simp, .ofProduct (.ofPower (.ofOperand hus)), h⟩

theorem EndsOperand.op {depth : Nat} {ts : List Token} (h : EndsOperand depth ts) (o : BinOp) :
    AwaitsOperand depth (ts ++ [.op o]) := by
  intro us e' hus _
  cases depth with
  | zero =>
    obtain ⟨e, he⟩ := h
    obtain ⟨e'', he''⟩ := he.exists_sum_append o hus
    exact ⟨e'', by simpa using he''⟩
  | succ depth =>
    obtain ⟨before, inside, e, rfl, he, hclose⟩ := h
    obtain ⟨e'', he''⟩ := he.exists_sum_append o hus
    exact ⟨before, inside ++ .op o :: us, e'', by simp, he'', hclose⟩

theorem EndsOperand.rparen {depth : Nat} {ts : List Token} (h : EndsOperand (depth + 1) ts) :
    EndsOperand depth (ts ++ [.rparen]) := by
  obtain ⟨before, inside, e, rfl, he, hclose⟩ := h
  have hend := hclose _ e (.group he) fun _ _ => by simp
  simpa using hend

/-! ### The beginning read so far -/

namespace Conversion

/-- The number of open groups. -/
def depth (s : Conversion) : Nat := s.stack.count .lparen

/-- The tokens read so far have enough numbers for their operators, and if they have no more than
that, they are the beginning of an expression. -/
structure Tracks (ts : List Token) (s : Conversion) : Prop where
  /-- Each operator read has its operands, but for a right one that is still due. -/
  enough : ts.countP Token.isBinary + (if s.operandDue then 0 else 1) ≤ ts.countP Token.isNumber
  /-- Without a number too many, the tokens wait for an operand while one is due. -/
  awaits : s.operandDue = true → ts.countP Token.isNumber = ts.countP Token.isBinary →
    AwaitsOperand s.depth ts
  /-- Without a number too many, the tokens end with an operand while none is due. -/
  ends : s.operandDue = false → ts.countP Token.isNumber = ts.countP Token.isBinary + 1 →
    EndsOperand s.depth ts

theorem tracks_nil : Tracks [] {} :=
  ⟨by simp, fun _ _ => awaitsOperand_nil, fun h => by cases h⟩

theorem Splits.count_lparen {b : Binding} {pending rest : List Token}
    (h : Splits (yields b) pending rest) :
    (pending ++ rest).count .lparen = rest.count .lparen := by
  rw [List.count_append, List.count_eq_zero.2 h.lparen_not_mem, Nat.zero_add]

section

variable {ts : List Token} {s s' : Conversion} {t : Token}

theorem Tracks.surplus (h : Tracks ts s) : Surplus 0 ts s := h.enough

/-- A token in front of an operand is one too many right after an operand. -/
theorem Tracks.push (h : Tracks ts s) (hst : Step s t s')
    (ht : t.isNumber = false ∧ t.isBinary = false) (hdue : s'.operandDue = true)
    (hstep : AwaitsOperand s.depth ts → AwaitsOperand s'.depth (ts ++ [t])) :
    Tracks (ts ++ [t]) s' := by
  refine ⟨h.surplus.step hst, fun _ hcount => ?_, fun hfalse => by simp [hdue] at hfalse⟩
  simp only [List.countP_append, List.countP_singleton, ht.1, ht.2, Bool.false_eq_true,
    if_false] at hcount
  cases hd : s.operandDue with
  | true => exact hstep (h.awaits hd (by omega))
  | false =>
    -- right after an operand, `enough` already gives a number too many
    have henough := h.enough
    simp only [hd, Bool.false_eq_true, if_false] at henough
    omega

theorem Tracks.close (h : Tracks ts s) (hst : Step s .rparen s') (hdue : s.operandDue = false)
    (hdue' : s'.operandDue = false) (hdepth : s.depth = s'.depth + 1) :
    Tracks (ts ++ [.rparen]) s' := by
  refine ⟨h.surplus.step hst, fun htrue => (by simp [hdue'] at htrue), fun _ hcount => ?_⟩
  have hcount' : ts.countP Token.isNumber = ts.countP Token.isBinary + 1 := by
    simpa [Token.isNumber, Token.isBinary] using hcount
  exact (hdepth ▸ h.ends hdue hcount').rparen

/-- Each token read keeps track of the beginning of an expression. -/
theorem Tracks.step (h : Tracks ts s) (hst : Step s t s') (hcomma : t ≠ .comma)
    (hneg : t = .neg → ∀ f, ts.getLast? ≠ some (.func f)) : Tracks (ts ++ [t]) s' := by
  have hsurplus := h.surplus.step hst
  cases hst with
  | number out stack due text =>
    refine ⟨hsurplus, fun htrue => (by cases htrue), fun _ hcount => ?_⟩
    simp only [List.countP_append, List.countP_singleton, Token.isNumber, Token.isBinary,
      Bool.false_eq_true, if_true, if_false] at hcount
    cases due with
    | true => exact (h.awaits rfl (by omega)).number text
    | false =>
      -- after an operand the number would be one too many
      have henough := h.enough
      simp only [Bool.false_eq_true, if_false] at henough
      omega
  | func out stack due f =>
    exact h.push (.func out stack due f) ⟨rfl, rfl⟩ rfl fun ha => ha.func f
  | lparen out stack due =>
    exact h.push (.lparen out stack due) ⟨rfl, rfl⟩ rfl fun ha => by simpa [depth] using ha.lparen
  | neg out due hsplit =>
    refine h.push (.neg out due hsplit) ⟨rfl, rfl⟩ rfl fun ha => ?_
    simpa [depth, hsplit.count_lparen] using ha.neg (hneg rfl)
  | op out o hsplit =>
    refine ⟨hsurplus, fun _ hcount => ?_, fun hfalse => by cases hfalse⟩
    simp only [List.countP_append, List.countP_singleton, Token.isNumber, Token.isBinary,
      Bool.false_eq_true, if_true, if_false] at hcount
    simpa [depth, hsplit.count_lparen] using (h.ends rfl (by omega)).op o
  | comma out due hp => exact absurd rfl hcomma
  | rparen out hp hrest =>
    exact h.close (.rparen out hp hrest) rfl rfl (by simp [depth, List.count_eq_zero.2 hp])
  | rparenCall out f hp =>
    exact h.close (.rparenCall out f hp) rfl rfl (by simp [depth, List.count_eq_zero.2 hp])

end

end Conversion

open Conversion

/-- Tokens that have a value, and in which no minus sign follows a function, are an expression. -/
theorem exists_derives_of_eval {ts r : List Token} {v : Float} (hcomma : .comma ∉ ts)
    (hneg : ∀ f us vs, ts ≠ us ++ .func f :: .neg :: vs) (hr : ofTokens ts = .ok r)
    (hv : eval r = .ok v) : ∃ e, Derives .sum ts e := by
  obtain ⟨s, hpath, hdue, hlparen, -⟩ := ofTokens_eq_ok_iff.1 hr
  have htracks := hpath.invariant tracks_nil Tracks.step hcomma hneg
  -- a single value in the end means that no number was too many
  have hdepth : s.depth = 0 := List.count_eq_zero.2 hlparen
  have hend := htracks.ends hdue (countP_isNumber_of_eval hr hv)
  rwa [hdepth] at hend

/-- **Only expressions have a value.**  If the tokens of a text hold no comma and have an RPN that
has a value, then they are an expression, and their RPN is the postorder of its tree. -/
theorem derives_of_tokenize_of_eval {text : List Char} {ts r : List Token} {v : Float}
    (hts : tokenize text = .ok ts) (hcomma : .comma ∉ ts) (hr : ofTokens ts = .ok r)
    (hv : eval r = .ok v) : ∃ e, Derives .sum ts e ∧ r = e.rpn := by
  have hneg (f : Func) (us vs : List Token) : ts ≠ us ++ .func f :: .neg :: vs := by
    rintro rfl
    have := (lexical_of_tokenize hts).startsOperand_of_neg
    cases this
  obtain ⟨e, he⟩ := exists_derives_of_eval hcomma hneg hr hv
  exact ⟨e, he, Except.ok.inj (hr.symm.trans (ofTokens_eq_rpn he))⟩

/-- The text `-2*ln(3-4)` has a value, and so is an expression. -/
theorem derives_neg_mul_ln :
    ∃ ts r v, tokenize ['-', '2', '*', 'l', 'n', '(', '3', '-', '4', ')'] = .ok ts ∧
      .comma ∉ ts ∧ ofTokens ts = .ok r ∧ eval r = .ok v ∧ ∃ e, Derives .sum ts e ∧ r = e.rpn := by
  have htokens : tokenize ['-', '2', '*', 'l', 'n', '(', '3', '-', '4', ')'] =
      .ok [.neg, .number ['2'], .op .mul, .func .ln, .lparen, .number ['3'], .op .sub,
        .number ['4'], .rparen] := rfl
  exact ⟨_, _, _, htokens, by decide, rfl, rfl,
    derives_of_tokenize_of_eval htokens (by decide) rfl rfl⟩

end Rpn

end PocketCalc
