import PocketCalc.Proofs.Evaluation
import PocketCalc.Proofs.Rpn.Balance

/-!
# Constants in a text

In plain spelling a constant is a decimal number, and what stands beside it follows without a gap.
A constant is read as a number of its own exactly if it stands beside no digit, no point and no
other constant (`tokenize_normalize_eq_iff`).  Otherwise figures that were apart become one number:
one number less is read, so that the tokens cannot be the same.

Main statements: `lexemes_normalize`, `tokenize_normalize_eq_iff`.
-/

namespace PocketCalc

namespace Lexeme

/-- The lexeme is a constant, as a sign or as a word. -/
def isConstant : Lexeme → Bool
  | word letters => (Constant.ofWord? letters).isSome
  | figures _ => false
  | mark c => decide (c = Constant.pi.symbol)

/-- A constant stands beside a number or another constant. -/
def Fuses (l m : Lexeme) : Prop :=
  l.isConstant = true ∧ (m.isConstant = true ∨ m.isFigures = true) ∨
    l.isFigures = true ∧ m.isConstant = true

instance (l m : Lexeme) : Decidable (Fuses l m) := inferInstanceAs (Decidable (_ ∨ _))

/-- What a lexeme is in plain spelling. -/
theorem plain_cases (l : Lexeme) :
    (l.isConstant = true ∧ ∃ k : Constant, l.plain = figures k.numeral) ∨
      l.isConstant = false ∧
        (l.plain = l ∨ ∃ c, ∃ o : BinOp, l = mark c ∧ l.plain = mark o.symbol) := by
  cases l with
  | word letters =>
    simp only [plain, isConstant]
    cases Constant.ofWord? letters with
    | none => exact .inr ⟨rfl, .inl rfl⟩
    | some k => exact .inl ⟨rfl, k, rfl⟩
  | figures text => exact .inr ⟨rfl, .inl rfl⟩
  | mark c =>
    by_cases hc : c = Constant.pi.symbol
    · subst hc
      exact .inl ⟨rfl, .pi, rfl⟩
    · refine .inr ⟨decide_eq_false hc, ?_⟩
      simp only [plain, plainMark]
      cases BinOp.ofGlyph? c with
      | none => exact .inl (if_neg hc)
      | some o => exact .inr ⟨c, o, rfl, rfl⟩

/-- In plain spelling a constant is figures, and everything else keeps its kind. -/
theorem kind_plain (l : Lexeme) :
    l.plain.isFigures = (l.isConstant || l.isFigures) ∧
      l.plain.isWord = (!l.isConstant && l.isWord) := by
  rcases l.plain_cases with ⟨hl, k, hk⟩ | ⟨hl, hplain | ⟨c, o, rfl, ho⟩⟩
  · rw [hl, hk]
    exact ⟨rfl, rfl⟩
  · rw [hl, hplain]
    exact ⟨rfl, rfl⟩
  · rw [hl, ho]
    exact ⟨rfl, rfl⟩

theorem isFigures_plain (l : Lexeme) : l.plain.isFigures = (l.isConstant || l.isFigures) :=
  l.kind_plain.1

theorem isWord_plain (l : Lexeme) : l.plain.isWord = (!l.isConstant && l.isWord) :=
  l.kind_plain.2

theorem proper_figures_numeral (k : Constant) : (figures k.numeral).Proper := by
  have hfigures : k.numeral.all isFigure = true := by cases k <;> rfl
  exact ⟨by cases k <;> exact List.cons_ne_nil _ _, List.all_eq_true.1 hfigures⟩

theorem Proper.plain {l : Lexeme} (h : l.Proper) : l.plain.Proper := by
  rcases l.plain_cases with ⟨-, k, hk⟩ | ⟨-, hplain | ⟨c, o, rfl, ho⟩⟩
  · rw [hk]
    exact proper_figures_numeral k
  · rwa [hplain]
  · rw [ho]
    exact proper_mark_symbol o

/-- Neighbours come to make one run in plain spelling where a constant stands beside a number or
another constant. -/
theorem joins_plain_iff {l m : Lexeme} (h : ¬ Joins l m) :
    Joins l.plain m.plain ↔ Fuses l m := by
  simp only [Joins, Fuses, isWord_plain, isFigures_plain, Bool.or_eq_true, Bool.and_eq_true,
    Bool.not_eq_true', not_or] at h ⊢
  tauto

end Lexeme

open Lexeme

/-! ### Plain spelling -/

theorem normalize_eq (text : List Char) :
    normalize text = ((lexemes text).map plain).flatMap Lexeme.text := by
  rw [normalize, List.flatMap_map]

/-- What holds inside the plain lexemes and where two of them meet holds in all of a text in plain
spelling. -/
theorem isChain_normalize {R : Char → Char → Prop} {text : List Char}
    (hinside : ∀ l ∈ lexemes text, l.plain.text.IsChain R)
    (hmeet : (lexemes text).IsChain fun l m =>
      ∀ a ∈ l.plain.text.getLast?, ∀ b ∈ m.plain.text.head?, R a b) :
    (normalize text).IsChain R := by
  have hne : [] ∉ ((lexemes text).map plain).map Lexeme.text := by
    intro hmem
    obtain ⟨m, hm, hnil⟩ := List.mem_map.1 hmem
    obtain ⟨l, hl, rfl⟩ := List.mem_map.1 hm
    exact (proper_of_mem_lexemes hl).plain.text_ne_nil hnil
  rw [normalize_eq, List.flatMap_def, List.isChain_flatten hne, List.isChain_map, List.isChain_map]
  refine ⟨fun chars hchars => ?_, hmeet⟩
  obtain ⟨m, hm, rfl⟩ := List.mem_map.1 hchars
  obtain ⟨l, hl, rfl⟩ := List.mem_map.1 hm
  exact hinside l hl

theorem normalize_append_mark {c : Char} (hc : (mark c).Proper) (a b : List Char) :
    normalize (a ++ c :: b) = normalize a ++ (mark c).plain.text ++ normalize b := by
  simp [normalize, lexemes_append_mark hc]

/-- In plain spelling an operator is a symbol. -/
theorem exists_plain_eq_symbol {c : Char} (h : isOperatorChar c = true) :
    ∃ o : BinOp, (mark c).plain = mark o.symbol := by
  rw [isOperatorChar, Bool.or_eq_true, Option.isSome_iff_exists, Option.isSome_iff_exists] at h
  rcases h with ⟨o, ho⟩ | ⟨o, ho⟩
  · obtain rfl := BinOp.symbol_of_ofSymbol? ho
    exact ⟨o, by cases o <;> rfl⟩
  · exact ⟨o, by simp [plain, plainMark, ho]⟩

/-- **The lexemes of a text in plain spelling are those of the text in plain spelling, except for
neighbours that make one run.** -/
theorem lexemes_normalize (text : List Char) :
    lexemes (normalize text) = ((lexemes text).map plain).foldr attach [] := by
  rw [normalize_eq, lexemes_flatMap_text]
  intro l hl
  obtain ⟨m, hm, rfl⟩ := List.mem_map.1 hl
  exact (proper_of_mem_lexemes hm).plain

theorem lexemes_normalize_append_mark {c c' : Char} (hc : (mark c).Proper)
    (hplain : (mark c).plain = mark c') (a b : List Char) :
    lexemes (normalize (a ++ c :: b)) =
      lexemes (normalize a) ++ mark c' :: lexemes (normalize b) := by
  have hc' : (mark c').Proper := hplain ▸ hc.plain
  rw [normalize_append_mark hc, hplain, text_mark, List.append_assoc, List.singleton_append,
    lexemes_append_mark hc']

theorem lexemes_normalize_mark_cons {c c' : Char} (hc : (mark c).Proper)
    (hplain : (mark c).plain = mark c') (b : List Char) :
    lexemes (normalize (c :: b)) = mark c' :: lexemes (normalize b) :=
  lexemes_normalize_append_mark hc hplain [] b

theorem Lexeme.word?_plain (l : Lexeme) :
    l.plain.word? = l.word?.filter fun w => (Constant.ofWord? w).isNone := by
  cases l with
  | word letters =>
    simp only [plain, word?, Option.filter_some]
    cases Constant.ofWord? letters with
    | none => rfl
    | some k => rfl
  | figures text => rfl
  | mark c =>
    rcases (mark c).plain_cases with ⟨-, k, hk⟩ | ⟨-, hplain | ⟨c', o, -, ho⟩⟩
    · rw [hk]
      rfl
    · rw [hplain]
      rfl
    · rw [ho]
      rfl

/-- No two words meet in plain spelling, for they would have met before. -/
theorem isChain_map_plain (text : List Char) :
    ((lexemes text).map plain).IsChain fun l m => ¬ (l.isWord = true ∧ m.isWord = true) := by
  rw [List.isChain_map]
  refine (isChain_lexemes text).imp fun l m hnot => ?_
  rintro ⟨hl, hm⟩
  rw [isWord_plain, Bool.and_eq_true] at hl hm
  exact hnot (.inl ⟨hl.2, hm.2⟩)

/-- The words that are left in plain spelling are those that are no constants. -/
theorem words_normalize (text : List Char) :
    words (normalize text) = (words text).filter fun w => (Constant.ofWord? w).isNone := by
  have hchain := isChain_map_plain text
  rw [← List.append_nil ((lexemes text).map plain)] at hchain
  rw [words, lexemes_normalize, filterMap_word?_foldr_attach hchain, List.append_nil,
    List.filterMap_map, words, List.filter_filterMap]
  exact List.filterMap_congr fun l _ => l.word?_plain

/-- No constant stands right beside a digit, a point or another constant. -/
def ConstantsApart (text : List Char) : Prop := (lexemes text).IsChain fun l m => ¬ Fuses l m

instance (text : List Char) : Decidable (ConstantsApart text) :=
  inferInstanceAs (Decidable ((lexemes text).IsChain fun l m => ¬ Fuses l m))

theorem isChain_plain_iff (text : List Char) :
    ((lexemes text).map plain).IsChain (fun l m => ¬ Joins l m) ↔ ConstantsApart text := by
  rw [ConstantsApart, List.isChain_map, List.isChain_iff_getElem, List.isChain_iff_getElem]
  refine forall₂_congr fun i hi => not_congr (joins_plain_iff ?_)
  exact (isChain_lexemes text).getElem i hi

/-! ### Counting numbers -/

theorem isNumber_of_ofMark? {before : Option Token} {c : Char} {t : Token}
    (h : Token.ofMark? before c = some t) : t.isNumber = false := by
  rcases Token.ofMark?_cases h with ⟨o, -, rfl⟩ | ⟨-, rfl⟩ | ⟨-, rfl⟩ | ⟨-, rfl⟩
  · split <;> rfl
  · rfl
  · rfl
  · rfl

theorem Lexeme.ReadsAs.isNumber_eq {before : Option Token} {l : Lexeme} {t : Token}
    (h : l.ReadsAs before t) : t.isNumber = l.isFigures := by
  cases h with
  | word | figures => rfl
  | mark ht => exact isNumber_of_ofMark? ht

/-- Each run of figures is read as a number, and nothing else is. -/
theorem Reads.countP_isNumber {before : Option Token} {ls : List Lexeme} {ts : List Token}
    (h : Reads before ls ts) : ts.countP Token.isNumber = ls.countP isFigures := by
  induction h with
  | nil => rfl
  | blank _ _ ih => simpa [isFigures] using ih
  | cons hl _ ih => rw [List.countP_cons, List.countP_cons, ih, hl.isNumber_eq]

theorem countP_isFigures_attach_le (l : Lexeme) (ls : List Lexeme) :
    (attach l ls).countP isFigures ≤ (l :: ls).countP isFigures := by
  fun_cases attach l ls with
  | case1 u v rest => simp [isFigures]
  | case2 u v rest => simp [List.countP_cons, isFigures]
  | case3 => exact Nat.le_refl _

theorem countP_isFigures_foldr_attach_le (ls : List Lexeme) :
    (ls.foldr attach []).countP isFigures ≤ ls.countP isFigures := by
  induction ls with
  | nil => exact Nat.le_refl 0
  | cons l ls ih =>
    refine (countP_isFigures_attach_le l _).trans ?_
    rw [List.countP_cons, List.countP_cons]
    exact Nat.add_le_add_right ih _

/-- Where neighbours make one number, there are fewer numbers. -/
theorem isChain_of_countP_isFigures_eq {ls : List Lexeme}
    (h : (ls.foldr attach []).countP isFigures = ls.countP isFigures) :
    ls.IsChain fun l m => ¬ (l.isFigures = true ∧ m.isFigures = true) := by
  induction ls with
  | nil => exact .nil
  | cons l ls ih =>
    have hattach := countP_isFigures_attach_le l (ls.foldr attach [])
    have hrest := countP_isFigures_foldr_attach_le ls
    rw [List.foldr_cons] at h
    rw [List.countP_cons] at h hattach
    refine List.isChain_cons.2 ⟨fun m hm ⟨hl, hfigures⟩ => ?_, ih (by omega)⟩
    obtain ⟨rest, rfl⟩ := List.head?_eq_some_iff.1 hm
    -- the two figures that meet would be counted as one
    obtain ⟨n, hn, -, hkind⟩ := exists_head?_attach m (rest.foldr attach [])
    obtain ⟨rest', hrest'⟩ := List.head?_eq_some_iff.1 hn
    rw [List.foldr_cons, hrest'] at h hrest
    match l, n, hl, hkind.trans hfigures with
    | figures u, figures v, _, _ =>
      rw [List.countP_cons_of_pos rfl] at hrest
      simp only [attach, List.countP_cons, isFigures, if_true] at h hrest
      omega

/-! ### Constants read as numbers of their own -/

/-- The tokens of a text whose constants are read as numbers of their own, whatever stands beside
them. -/
def separateTokens (text : List Char) : Except LexError (List Token) :=
  tokensOf none 0 ((lexemes text).map plain)

theorem tokenize_normalize_of_constantsApart {text : List Char} (h : ConstantsApart text) :
    tokenize (normalize text) = separateTokens text := by
  rw [tokenize, lexemes_normalize, foldr_attach_of_isChain ((isChain_plain_iff text).2 h)]
  rfl

theorem Lexeme.Fuses.isFigures_plain {l m : Lexeme} (h : Fuses l m) :
    l.plain.isFigures = true ∧ m.plain.isFigures = true := by
  rw [Lexeme.isFigures_plain, Lexeme.isFigures_plain]
  rcases h with ⟨hl, hm | hm⟩ | ⟨hl, hm⟩
  · simp [hl, hm]
  · simp [hl, hm]
  · simp [hl, hm]

/-- **A text is read with each constant as a number of its own exactly if no constant stands beside
a digit, a point or another constant.** -/
theorem tokenize_normalize_eq_iff {text : List Char} {ts : List Token}
    (h : tokenize (normalize text) = .ok ts) :
    tokenize (normalize text) = separateTokens text ↔ ConstantsApart text := by
  refine ⟨fun heq => ?_, tokenize_normalize_of_constantsApart⟩
  -- both ways there are as many numbers, so no two of them have been fused
  have hread := (reads_of_tokensOf h).countP_isNumber
  have hseparate := (reads_of_tokensOf (heq.symm.trans h)).countP_isNumber
  rw [lexemes_normalize, hseparate] at hread
  have hchain := isChain_of_countP_isFigures_eq hread.symm
  rw [List.isChain_map] at hchain
  exact hchain.imp fun _ _ hnot hfuses => hnot hfuses.isFigures_plain

/-- In `2×π` the constant is a number of its own. -/
theorem separateTokens_two_times_pi :
    tokenize (normalize ['2', '×', 'π']) =
      .ok [.number ['2'], .op .mul, .number Constant.pi.numeral] ∧
    separateTokens ['2', '×', 'π'] =
      .ok [.number ['2'], .op .mul, .number Constant.pi.numeral] := by
  have htokens : tokenize (normalize ['2', '×', 'π']) =
      .ok [.number ['2'], .op .mul, .number Constant.pi.numeral] := rfl
  exact ⟨htokens, ((tokenize_normalize_eq_iff htokens).2 (by decide)).symm.trans htokens⟩

/-- In `2π` the digit and the constant are read as `23.14…`, a single number. -/
theorem exists_evaluate_of_fused_constant :
    ∃ ts e, tokenize (normalize ['2', 'π']) = .ok ts ∧
      separateTokens ['2', 'π'] = .ok [.number ['2'], .number Constant.pi.numeral] ∧
      ts = [.number ('2' :: Constant.pi.numeral)] ∧
      tokenize (normalize ['2', 'π']) ≠ separateTokens ['2', 'π'] ∧
      evaluate ['2', 'π'] 10 = .ok e ∧
      e.text = ['2', '3', '.', '1', '4', '1', '5', '9', '2', '6', '5', '3', '6'] := by
  have htokens : tokenize (normalize ['2', 'π']) =
      .ok [.number ('2' :: Constant.pi.numeral)] := rfl
  have hseparate : separateTokens ['2', 'π'] =
      .ok [.number ['2'], .number Constant.pi.numeral] := rfl
  have hdiffer : tokenize (normalize ['2', 'π']) ≠ separateTokens ['2', 'π'] := by
    rw [htokens, hseparate]
    exact fun h => absurd (Except.ok.inj h) (by decide)
  obtain ⟨e, heval, htext⟩ := exists_evaluate_of_text
    (show (evaluate ['2', 'π'] 10).toOption.map Evaluation.text =
      some ['2', '3', '.', '1', '4', '1', '5', '9', '2', '6', '5', '3', '6'] by decide +kernel)
  exact ⟨_, e, htokens, hseparate, rfl, hdiffer, heval, htext⟩

end PocketCalc
