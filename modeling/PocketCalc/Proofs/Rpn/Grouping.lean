import PocketCalc.Proofs.Rpn.Postorder
import PocketCalc.Proofs.Token.Constants

/-!
# Parentheses around an operand

Right before a binary operator, an operand has left its whole tree in the output: any operator moves
what the operand still kept waiting, a minus sign included (`path_op_of_derives`).  So it makes no
difference there whether the operand stands in parentheses (`ofTokens_group_op_iff`).

The text of a result is such an operand, after a minus sign if the result is negative.  Whoever goes
on with an operator after a result computes with the result as a whole, whatever comes then.

Main statement: `outcome?_group_readout`.
-/

namespace PocketCalc

namespace Rpn

open Conversion

variable {ts : List Token} {e : Expr}

/-! ### Operands before an operator -/

/-- After an operand and an operator, the tree of the operand has been written and only the operator
waits. -/
theorem path_op_of_derives (h : Derives .operand ts e) (o : BinOp) :
    Path {} (ts ++ [.op o]) ⟨e.rpn, [.op o], true⟩ := by
  have hbase : Bounded .operand [] := fun t ht => by cases ht
  obtain ⟨out, pending, hpath, hpost, hbinds⟩ :=
    converts_of_derives h (mayFollow_nil _ _) [] [] hbase
  simp only [List.map_nil, List.append_nil, List.nil_append] at hpath hpost
  -- an operand leaves nothing waiting that binds as loosely as a binary operator
  have hsplit : Splits (yields o.binding) pending [] := by
    refine ⟨fun t ht => (hbinds t ht).yields (.inl ?_), fun t ht => by cases ht⟩
    cases o <;> decide
  have hop := Step.op out o hsplit
  rw [List.append_nil, hpost] at hop
  exact hpath.snoc hop

/-- **Parentheses around an operand before an operator do not change the RPN.** -/
theorem ofTokens_group_op_iff (h : Derives .operand ts e) (o : BinOp) (us : List Token)
    {r : List Token} :
    ofTokens (.lparen :: ts ++ [.rparen] ++ .op o :: us) = .ok r ↔
      ofTokens (ts ++ .op o :: us) = .ok r := by
  have hgroup : Derives .operand (.lparen :: ts ++ [.rparen]) e :=
    .group (.ofProduct (.ofPower (.ofOperand h)))
  have hpath (ws : List Token) (hws : Derives .operand ws e) (s : Conversion) :
      Path {} (ws ++ .op o :: us) s ↔ Path ⟨e.rpn, [.op o], true⟩ us s := by
    rw [← (path_op_of_derives hws o).append_iff, List.append_assoc, List.singleton_append]
  simp only [ofTokens_eq_ok_iff, hpath _ hgroup, hpath _ h]

end Rpn

/-! ### Results before an operator -/

/-- The text is that of tokens with the given RPN. -/
def HasRpn (text : List Char) (r : List Token) : Prop :=
  ∃ ts, tokenize (normalize text) = .ok ts ∧ Rpn.ofTokens ts = .ok r

open Lexeme

namespace Decimal

variable (d : Decimal)

theorem derives_tokens : ∃ e, Derives .operand d.tokens e := by
  rw [tokens]
  by_cases hneg : d.coeff < 0
  · rw [if_pos hneg]
    exact ⟨_, .neg (.number d.figures)⟩
  · rw [if_neg hneg]
    exact ⟨_, .number d.figures⟩

/-- Where an operand can start, the text of a decimal is read as its own tokens, whatever
follows. -/
theorem reads_lexemes_append_iff {before : Option Token} (hstart : startsOperand before = true)
    {ls : List Lexeme} {ts : List Token} :
    Reads before (d.lexemes ++ ls) ts ↔
      ∃ us, Reads (some (.number d.figures)) ls us ∧ ts = d.tokens ++ us := by
  rw [Decimal.lexemes, tokens]
  by_cases hneg : d.coeff < 0
  · have hminus : Token.ofMark? before '-' = some .neg :=
      (Token.ofMark?_symbol before .sub).trans (congrArg some (if_pos ⟨rfl, hstart⟩))
    rw [if_pos hneg, if_pos hneg]
    simp only [List.cons_append, List.nil_append, reads_mark_cons_iff hminus,
      reads_figures_cons_iff]
    constructor
    · rintro ⟨_, ⟨us, hus, rfl⟩, rfl⟩
      exact ⟨us, hus, rfl⟩
    · rintro ⟨us, hus, rfl⟩
      exact ⟨_, ⟨us, hus, rfl⟩, rfl⟩
  · rw [if_neg hneg, if_neg hneg]
    exact reads_figures_cons_iff

end Decimal

/-- After an operand, an operator symbol is read as the operator. -/
theorem reads_symbol_cons_iff {before : Option Token} {o : BinOp} {ls : List Lexeme}
    {ts : List Token} (hstart : startsOperand before = false) :
    Reads before (mark o.symbol :: ls) ts ↔
      ∃ us, Reads (some (.op o)) ls us ∧ ts = .op o :: us := by
  refine reads_mark_cons_iff ((Token.ofMark?_symbol before o).trans (congrArg some (if_neg ?_)))
  simp [hstart]

section

variable {c : Char} {o : BinOp} (d : Decimal) (hc : (mark c).Proper)
  (ho : (mark c).plain = mark o.symbol) (rest : List Char) {ts : List Token}

include hc ho

theorem tokenize_text_append_iff :
    tokenize (normalize (d.text ++ c :: rest)) = .ok ts ↔
      ∃ us, Reads (some (.op o)) (lexemes (normalize rest)) us ∧ ts = d.tokens ++ .op o :: us := by
  have hnumber : startsOperand (some (.number d.figures)) = false := rfl
  rw [tokenize, tokensOf_eq_ok_iff, lexemes_normalize_append_mark hc ho, d.normalize_text,
    d.lexemes_text, d.reads_lexemes_append_iff rfl]
  simp only [reads_symbol_cons_iff hnumber]
  constructor
  · rintro ⟨_, ⟨us, hus, rfl⟩, rfl⟩
    exact ⟨us, hus, rfl⟩
  · rintro ⟨us, hus, rfl⟩
    exact ⟨_, ⟨us, hus, rfl⟩, rfl⟩

theorem tokenize_group_append_iff :
    tokenize (normalize ('(' :: d.text ++ ')' :: c :: rest)) = .ok ts ↔
      ∃ us, Reads (some (.op o)) (lexemes (normalize rest)) us ∧
        ts = .lparen :: d.tokens ++ [.rparen] ++ .op o :: us := by
  have hlexemes : lexemes (normalize ('(' :: d.text ++ ')' :: c :: rest)) =
      mark '(' :: (d.lexemes ++ mark ')' :: mark o.symbol :: lexemes (normalize rest)) := by
    have hlparen : (mark '(').plain = mark '(' := rfl
    have hrparen : (mark ')').plain = mark ')' := rfl
    rw [List.cons_append, lexemes_normalize_mark_cons ⟨rfl, rfl⟩ hlparen,
      lexemes_normalize_append_mark ⟨rfl, rfl⟩ hrparen, d.normalize_text, d.lexemes_text,
      lexemes_normalize_mark_cons hc ho]
  have hopen : Token.ofMark? none '(' = some .lparen := rfl
  have hclose : Token.ofMark? (some (.number d.figures)) ')' = some .rparen := rfl
  have hinside : startsOperand (some .lparen) = true := rfl
  have hafter : startsOperand (some .rparen) = false := rfl
  rw [tokenize, tokensOf_eq_ok_iff, hlexemes, reads_mark_cons_iff hopen]
  simp only [d.reads_lexemes_append_iff hinside, reads_mark_cons_iff hclose,
    reads_symbol_cons_iff hafter]
  constructor
  · rintro ⟨_, ⟨_, ⟨_, ⟨us, hus, rfl⟩, rfl⟩, rfl⟩, rfl⟩
    exact ⟨us, hus, by simp⟩
  · rintro ⟨us, hus, rfl⟩
    exact ⟨_, ⟨_, ⟨_, ⟨us, hus, rfl⟩, rfl⟩, rfl⟩, by simp⟩

/-- In front of an operator, parentheses around the text of a decimal do not change the RPN. -/
theorem hasRpn_group_iff {r : List Token} :
    HasRpn ('(' :: d.text ++ ')' :: c :: rest) r ↔ HasRpn (d.text ++ c :: rest) r := by
  obtain ⟨e, he⟩ := d.derives_tokens
  simp only [HasRpn, tokenize_text_append_iff d hc ho, tokenize_group_append_iff d hc ho]
  constructor
  · rintro ⟨_, ⟨us, hus, rfl⟩, hr⟩
    exact ⟨_, ⟨us, hus, rfl⟩, (Rpn.ofTokens_group_op_iff he o us).1 hr⟩
  · rintro ⟨_, ⟨us, hus, rfl⟩, hr⟩
    exact ⟨_, ⟨us, hus, rfl⟩, (Rpn.ofTokens_group_op_iff he o us).2 hr⟩

end

/-! ### Outcomes -/

/-- The value of an expression, the text that shows it and the RPN in its trace; nothing if the
evaluation fails. -/
def outcome? (expression : List Char) (places : Nat) : Option (Float × List Char × List Char) :=
  (evaluate expression places).toOption.map fun e => (e.value, e.text, e.trace.rpn)

theorem outcome?_eq_some_iff {expression : List Char} {places : Nat} {v : Float}
    {t rpn : List Char} :
    outcome? expression places = some (v, t, rpn) ↔
      ∃ r, HasRpn expression r ∧ Rpn.eval r = .ok v ∧ readout v places = .ok t ∧
        rpn = Token.textOfList r := by
  constructor
  · intro h
    obtain ⟨e, heval, hfields⟩ := Option.map_eq_some_iff.1 h
    have hok : evaluate expression places = .ok e := by
      cases hcase : evaluate expression places with
      | error error =>
        rw [hcase] at heval
        cases heval
      | ok e' =>
        rw [hcase] at heval
        rw [Option.some.inj heval]
    obtain ⟨ts, r, hts, hr, hv, ht, htrace⟩ := evaluate_eq_ok_iff.1 hok
    cases hfields
    exact ⟨r, ⟨ts, hts, hr⟩, hv, ht, by rw [htrace]⟩
  · rintro ⟨r, ⟨ts, hts, hr⟩, hv, ht, rfl⟩
    have hok : evaluate expression places =
        .ok ⟨t, v, ⟨Token.textOfList ts, Token.textOfList r⟩⟩ :=
      evaluate_eq_ok_iff.2 ⟨ts, r, hts, hr, hv, ht, rfl⟩
    rw [outcome?, hok]
    rfl

/-- **A result is one operand for whatever operator comes next.**  With parentheses around it or
without, evaluation fails, or it has the same value, text and RPN. -/
theorem outcome?_group_readout {v : Float} {places : Nat} {t : List Char}
    (ht : readout v places = .ok t) {c : Char} (hc : isOperatorChar c = true) (rest : List Char)
    (places' : Nat) :
    outcome? ('(' :: t ++ ')' :: c :: rest) places' = outcome? (t ++ c :: rest) places' := by
  obtain ⟨d, rfl, -⟩ := readout_toFloat ht
  obtain ⟨o, ho⟩ := exists_plain_eq_symbol hc
  obtain ⟨hfigure, hletter, -⟩ := classes_of_isOperatorChar hc
  refine Option.ext fun ⟨w, text, rpn⟩ => ?_
  simp only [outcome?_eq_some_iff, hasRpn_group_iff d ⟨hletter, hfigure⟩ ho]

/-- The square of the result `-3` is that of the number, also where its sign comes first. -/
theorem outcome?_square_of_negative :
    readout (Binary64.ofIndex true 0x4008000000000000) 10 = .ok ['-', '3'] ∧
      outcome? ['(', '-', '3', ')', '^', '2'] 10 = outcome? ['-', '3', '^', '2'] 10 := by
  have hreadout : readout (Binary64.ofIndex true 0x4008000000000000) 10 = .ok ['-', '3'] :=
    readout_eq_ok_iff.2 (by decide +kernel)
  exact ⟨hreadout, outcome?_group_readout hreadout (by decide) ['2'] 10⟩

end PocketCalc
