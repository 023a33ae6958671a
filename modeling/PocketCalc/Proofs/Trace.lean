import PocketCalc.Proofs.Evaluation
import PocketCalc.Proofs.Rpn.Order

/-!
# Traces read back

A trace shows tokens by their texts, with a space between two.  The text of a token has no space in
it and stands for no other token (`ofText_text`): a number has digits and points only, as the lexer
wrote it, and the two uses of the minus sign are written apart.  So the tokens and the RPN in the
trace of an evaluation can be read back from it, and with them the evaluation can be done once more.

Main statement: `replay_of_evaluate`.
-/

namespace PocketCalc

namespace Token

/-- The operator whose symbol is the whole piece of a trace. -/
def operator? : List Char → Option BinOp
  | [c] => BinOp.ofSymbol? c
  | _ => none

/-- The token that a piece of a trace shows; whatever is no sign and no name shows a number. -/
def ofText (piece : List Char) : Token :=
  if piece = ['n', 'e', 'g'] then neg
  else if piece = ['('] then lparen
  else if piece = [')'] then rparen
  else if piece = [','] then comma
  else
    match operator? piece with
    | some o => op o
    | none =>
      match Func.ofName? piece with
      | some f => func f
      | none => number piece

/-- The tokens that a trace shows between its spaces. -/
def listOfText (text : List Char) : List Token := (text.splitOn ' ').map ofText

/-- A number has a text, of digits and points. -/
def InFigures : Token → Prop
  | number text => text ≠ [] ∧ ∀ c ∈ text, isFigure c = true
  | _ => True

theorem operator?_of_isFigure {text : List Char} (h : ∀ c ∈ text, isFigure c = true) :
    operator? text = none := by
  unfold operator?
  split
  · rename_i c
    by_contra hne
    obtain ⟨o, ho⟩ := Option.ne_none_iff_exists'.1 hne
    have hc := h c List.mem_cons_self
    rw [← BinOp.symbol_of_ofSymbol? ho] at hc
    cases o <;> cases hc
  · rfl

theorem ofName?_of_isFigure {text : List Char} (hne : text ≠ [])
    (h : ∀ c ∈ text, isFigure c = true) : Func.ofName? text = none := by
  by_contra hsome
  obtain ⟨f, hf⟩ := Option.ne_none_iff_exists'.1 hsome
  -- the first letter of the name would be a digit or a point
  obtain ⟨c, hc⟩ := List.exists_mem_of_ne_nil text hne
  have hletter := (classes_of_isFigure (h c hc)).2.1
  rw [← Func.name_of_ofName? hf] at hc
  rw [isLetter_of_mem_name hc] at hletter
  cases hletter

/-- Digits and points show a number. -/
theorem ofText_of_isFigure {text : List Char} (hne : text ≠ [])
    (h : ∀ c ∈ text, isFigure c = true) : ofText text = number text := by
  have hsign (c : Char) (rest : List Char) (hc : isFigure c = false) : text ≠ c :: rest := by
    rintro rfl
    rw [h c List.mem_cons_self] at hc
    cases hc
  rw [ofText, if_neg (hsign 'n' _ rfl), if_neg (hsign '(' _ rfl), if_neg (hsign ')' _ rfl),
    if_neg (hsign ',' _ rfl), operator?_of_isFigure h, ofName?_of_isFigure hne h]

/-- The text of a token shows the token. -/
theorem ofText_text {t : Token} (h : t.InFigures) : ofText t.text = t := by
  cases t with
  | number text => exact ofText_of_isFigure h.1 h.2
  | op o => cases o <;> rfl
  | func f => cases f <;> rfl
  | neg | lparen | rparen | comma => rfl

theorem space_not_mem_text {t : Token} (h : t.InFigures) : ' ' ∉ t.text := by
  cases t with
  | number text =>
    intro hmem
    cases h.2 ' ' hmem
  | op o => cases o <;> decide
  | func f => cases f <;> decide
  | neg | lparen | rparen | comma => decide

/-- **Tokens are read back from the text that shows them.** -/
theorem listOfText_textOfList {ts : List Token} (hne : ts ≠ []) (h : ∀ t ∈ ts, t.InFigures) :
    listOfText (textOfList ts) = ts := by
  have hspace : ∀ piece ∈ ts.map text, ' ' ∉ piece := by
    intro piece hpiece
    obtain ⟨t, ht, rfl⟩ := List.mem_map.1 hpiece
    exact space_not_mem_text (h t ht)
  have hmap : ts.map text ≠ [] := by simpa using hne
  have hread : ∀ t ∈ ts, (ofText ∘ text) t = id t := fun t ht => ofText_text (h t ht)
  rw [listOfText, textOfList, List.splitOn_intercalate _ hspace hmap, List.map_map,
    List.map_congr_left hread, List.map_id]

end Token

theorem Lexical.inFigures {before : Option Token} {ts : List Token} (h : Lexical before ts)
    {t : Token} (ht : t ∈ ts) : t.InFigures := by
  cases t with
  | number text => exact h.figures_of_mem ht
  | op | neg | func | lparen | rparen | comma => trivial

/-- **A trace can be replayed.**  The tokens that the trace of an evaluation shows are those of the
expression, their RPN is the RPN that it shows, and this has the value and the text of the
evaluation. -/
theorem replay_of_evaluate {expression : List Char} {places : Nat} {e : Evaluation}
    (h : evaluate expression places = .ok e) :
    tokenize (normalize expression) = .ok (Token.listOfText e.trace.tokens) ∧
      Rpn.ofTokens (Token.listOfText e.trace.tokens) = .ok (Token.listOfText e.trace.rpn) ∧
      Rpn.eval (Token.listOfText e.trace.rpn) = .ok e.value ∧
      readout e.value places = .ok e.text := by
  obtain ⟨ts, r, hts, hr, hv, htext, htrace⟩ := evaluate_eq_ok_iff.1 h
  have hlexical := lexical_of_tokenize hts
  have hts_ne : ts ≠ [] := by
    rintro rfl
    cases hr
  have hr_ne : r ≠ [] := by
    rintro rfl
    cases hv
  have htokens : Token.listOfText (Token.textOfList ts) = ts :=
    Token.listOfText_textOfList hts_ne fun t ht => hlexical.inFigures ht
  have hrpn : Token.listOfText (Token.textOfList r) = r := by
    refine Token.listOfText_textOfList hr_ne fun t ht => hlexical.inFigures ?_
    exact List.mem_of_mem_filter ((Rpn.perm_of_ofTokens hr).mem_iff.1 ht)
  rw [htrace, htokens, hrpn]
  exact ⟨hts, hr, hv, htext⟩

/-- The trace of `5−-7×(2)` shows a minus sign that subtracts and one that does not. -/
theorem replay_minus_negative :
    ∃ e, evaluate ['5', '−', '-', '7', '×', '(', '2', ')'] 10 = .ok e ∧ e.text = ['1', '9'] ∧
      e.trace = ⟨['5', ' ', '-', ' ', 'n', 'e', 'g', ' ', '7', ' ', '*', ' ', '(', ' ', '2', ' ',
        ')'], ['5', ' ', '7', ' ', 'n', 'e', 'g', ' ', '2', ' ', '*', ' ', '-']⟩ ∧
      tokenize (normalize ['5', '−', '-', '7', '×', '(', '2', ')']) =
        .ok (Token.listOfText e.trace.tokens) ∧
      Rpn.ofTokens (Token.listOfText e.trace.tokens) = .ok (Token.listOfText e.trace.rpn) ∧
      Rpn.eval (Token.listOfText e.trace.rpn) = .ok e.value ∧ readout e.value 10 = .ok e.text := by
  obtain ⟨e, heval, htext⟩ := exists_evaluate_of_text
    (show (evaluate ['5', '−', '-', '7', '×', '(', '2', ')'] 10).toOption.map Evaluation.text =
      some ['1', '9'] by decide +kernel)
  obtain ⟨ts, r, hts, hr, -, -, htrace⟩ := evaluate_eq_ok_iff.1 heval
  obtain rfl := Except.ok.inj hts
  obtain rfl := Except.ok.inj hr
  exact ⟨e, heval, htext, htrace, replay_of_evaluate heval⟩

end PocketCalc
