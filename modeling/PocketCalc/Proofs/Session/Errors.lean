import PocketCalc.Proofs.Rpn.Height
import PocketCalc.Proofs.Session.Buffer
import PocketCalc.Proofs.Token.Constants

/-!
# The errors of a session

A text in good order is not empty, and in plain spelling its marks are operators and parentheses,
so that each of them is read as a token and none as a comma.  The lexer puts no sign right after a
function, and hence the RPN of such a text finds all its operands.  This leaves few errors
(`canArise_of_evaluate`).

Only taking back a character can cut the name of a function short.  Until this is done, each word in
the text is a constant or the name of a function (`KnownWords`), and the lexer refuses nothing.

Main statement: `canArise_of_lastError`.
-/

namespace PocketCalc

/-- The error can be that of a text in good order. -/
def CalcError.canArise : CalcError → Bool
  | lexical (.unexpected _ _) => false
  | grammatical .empty | grammatical .strayComma => false
  | evaluation (.stackEmpty _) | evaluation (.notOperation _) => false
  | _ => true

open Lexeme

/-! ### Texts in good order -/

/-- `c` is an operator symbol or a parenthesis. -/
def IsPlainMark (c : Char) : Prop := (∃ o : BinOp, c = o.symbol) ∨ c = '(' ∨ c = ')'

namespace IsPlainMark

variable {c : Char}

theorem exists_ofMark? (h : IsPlainMark c) (before : Option Token) :
    ∃ t, Token.ofMark? before c = some t := by
  rcases h with ⟨o, rfl⟩ | rfl | rfl
  · exact ⟨_, Token.ofMark?_symbol before o⟩
  · exact ⟨.lparen, rfl⟩
  · exact ⟨.rparen, rfl⟩

theorem isBlank_eq_false (h : IsPlainMark c) : Text.isBlank c = false := by
  rcases h with ⟨o, rfl⟩ | rfl | rfl
  · cases o <;> decide
  · decide
  · decide

theorem ne_comma (h : IsPlainMark c) : c ≠ ',' := by
  rcases h with ⟨o, rfl⟩ | rfl | rfl
  · cases o <;> decide
  · decide
  · decide

end IsPlainMark

/-- A typed mark is an operator, a parenthesis or a constant. -/
theorem isTypedChar_cases {c : Char} (htyped : isTypedChar c = true) (hc : (mark c).Proper) :
    isOperatorChar c = true ∨ c = '(' ∨ c = ')' ∨ (mark c).isConstant = true := by
  obtain ⟨hletter, hfigure⟩ := hc
  simp only [isTypedChar, Bool.or_eq_true, beq_iff_eq, List.any_eq_true,
    decide_eq_true_eq] at htyped
  rcases htyped with (((((hdigit | rfl) | hop) | rfl) | rfl) | hconstant) | ⟨f, -, hf⟩
  · rw [isFigure_of_isDigit hdigit] at hfigure
    cases hfigure
  · cases hfigure
  · exact .inl hop
  · exact .inr (.inl rfl)
  · exact .inr (.inr (.inl rfl))
  · rcases isConstantChar_iff.1 hconstant with rfl | rfl
    · exact .inr (.inr (.inr rfl))
    · cases hletter
  · rw [isLetter_of_mem_name hf] at hletter
    cases hletter

section

variable {text : List Char} (htyped : ∀ c ∈ text, isTypedChar c = true)

include htyped

/-- In plain spelling, the marks of a typed text are operator symbols and parentheses. -/
theorem isPlainMark_of_mem_lexemes {c : Char} (hc : mark c ∈ lexemes (normalize text)) :
    IsPlainMark c := by
  rw [lexemes_normalize, mark_mem_foldr_attach_iff] at hc
  obtain ⟨l, hl, hplain⟩ := List.mem_map.1 hc
  rcases l.plain_cases with ⟨-, k, hk⟩ | ⟨hconstant, hsame | ⟨c', o, -, ho⟩⟩
  · rw [hk] at hplain
    cases hplain
  · obtain rfl : l = mark c := hsame.symm.trans hplain
    have hmem := mem_of_mem_lexemes hl (List.mem_singleton_self c)
    rcases isTypedChar_cases (htyped c hmem) (proper_of_mem_lexemes hl) with
      hop | hlparen | hrparen | hpi
    · obtain ⟨o, ho⟩ := exists_plain_eq_symbol hop
      exact .inl ⟨o, mark.inj (hplain.symm.trans ho)⟩
    · exact .inr (.inl hlparen)
    · exact .inr (.inr hrparen)
    · rw [hconstant] at hpi
      cases hpi
  · exact .inl ⟨o, mark.inj (hplain.symm.trans ho)⟩

/-- A typed text is refused by the lexer only for a word. -/
theorem exists_word_of_tokenize_eq_error {error : LexError}
    (he : tokenize (normalize text) = .error error) :
    ∃ letters position, word letters ∈ lexemes (normalize text) ∧ Func.ofName? letters = none ∧
      error = .unknownWord letters position := by
  obtain ⟨ks, l, ms, us, hls, -, hoffends⟩ := exists_offendsAt_of_tokensOf he
  have hl : l ∈ lexemes (normalize text) := by simp [hls]
  cases hoffends with
  | word hname => exact ⟨_, _, hl, hname, rfl⟩
  | mark _ hmark =>
    obtain ⟨t, ht⟩ := (isPlainMark_of_mem_lexemes htyped hl).exists_ofMark? none
    rw [hmark none] at ht
    cases ht

theorem comma_not_mem_of_tokenize {ts : List Token} (hts : tokenize (normalize text) = .ok ts) :
    .comma ∉ ts := fun hcomma =>
  (isPlainMark_of_mem_lexemes htyped ((reads_of_tokensOf hts).mark_mem_of_comma hcomma)).ne_comma
    rfl

theorem eq_nil_of_tokenize (hts : tokenize (normalize text) = .ok []) : text = [] := by
  have hnone : lexemes (normalize text) = [] := by
    refine List.eq_nil_iff_forall_not_mem.2 fun l hl => ?_
    obtain ⟨c, rfl, hc⟩ := (reads_of_tokensOf hts).blank_of_mem hl
    rw [(isPlainMark_of_mem_lexemes htyped hl).isBlank_eq_false] at hc
    cases hc
  rw [lexemes_normalize] at hnone
  rw [← flatMap_text_lexemes text]
  cases hls : lexemes text with
  | nil => rfl
  | cons l ls =>
    obtain ⟨m, hm, -⟩ := exists_head?_attach l.plain ((ls.map plain).foldr attach [])
    rw [hls, List.map_cons, List.foldr_cons] at hnone
    rw [hnone] at hm
    cases hm

end

/-- **The error of a text in good order.** -/
theorem canArise_of_evaluate {text : List Char} {places : Nat} {error : CalcError}
    (h : WellFormedBuffer text) (herror : evaluate text places = .error error) :
    error.canArise = true := by
  rcases evaluate_eq_error_iff.1 herror with ⟨e, he, rfl⟩ | ⟨ts, hts, hrest⟩
  · obtain ⟨letters, position, -, -, rfl⟩ := exists_word_of_tokenize_eq_error h.typed he
    rfl
  have hcomma := comma_not_mem_of_tokenize h.typed hts
  rcases hrest with ⟨e, he, rfl⟩ | ⟨r, hr, ⟨e, he, rfl⟩ | ⟨v, e, -, -, rfl⟩⟩
  · rcases Rpn.ofTokens_eq_error_iff.1 he with
      ⟨rfl, -⟩ | ⟨us, t, vs, s, rfl, -, hrefused⟩ | ⟨-, s, -, hfinish⟩
    · exact absurd (eq_nil_of_tokenize h.typed hts) h.ne_nil
    · cases hrefused with
      | strayComma => exact absurd (by simp) hcomma
      | misplaced | incomplete | unmatched => rfl
    · rcases Rpn.Conversion.finish_eq_error_iff.1 hfinish with ⟨-, rfl⟩ | ⟨-, -, rfl⟩
      · rfl
      · rfl
  · obtain ⟨n, hn, -⟩ := Rpn.exists_height_ofTokens hcomma
      (lexical_of_tokenize hts).ne_func_neg hr
    rcases Rpn.eval_error_of_height (fun _ => Rpn.isWritten_of_mem_ofTokens hr) hn he with
      ⟨text, rfl⟩ | rfl
    · rfl
    · rfl
  · rfl

/-! ### Known words -/

/-- The word stands for something in an expression. -/
def IsKnownWord (letters : List Char) : Prop :=
  (Constant.ofWord? letters).isSome = true ∨ (Func.ofName? letters).isSome = true

/-- The words of a text are constants and names of functions, and no name stands last. -/
structure KnownWords (text : List Char) : Prop where
  /-- Each word is known. -/
  known : ∀ letters ∈ words text, IsKnownWord letters
  /-- A text that ends in a letter ends in a constant. -/
  last : ∀ c ∈ text.getLast?, isLetter c = true → isConstantChar c = true

/-- A typed text with known words has tokens. -/
theorem KnownWords.tokenize_ne_error {text : List Char} (hwords : KnownWords text)
    (htyped : ∀ c ∈ text, isTypedChar c = true) (error : LexError) :
    tokenize (normalize text) ≠ .error error := by
  intro he
  obtain ⟨letters, -, hl, hname, -⟩ := exists_word_of_tokenize_eq_error htyped he
  have hmem : letters ∈ words (normalize text) := List.mem_filterMap.2 ⟨_, hl, rfl⟩
  -- a word that is left in plain spelling is no constant
  rw [words_normalize, List.mem_filter, Option.isNone_iff_eq_none] at hmem
  rcases hwords.known letters hmem.1 with hconstant | hfunc
  · rw [hmem.2] at hconstant
    cases hconstant
  · rw [hname] at hfunc
    cases hfunc

theorem KnownWords.append {buffer text : List Char}
    (hb : ∀ letters ∈ words buffer, IsKnownWord letters) (ht : KnownWords text) (hne : text ≠ [])
    (hmeet : ∀ a ∈ buffer.getLast?, ∀ b ∈ text.head?, ¬ (isLetter a = true ∧ isLetter b = true)) :
    KnownWords (buffer ++ text) where
  known letters hletters := by
    rw [words_append hmeet, List.mem_append] at hletters
    exact hletters.elim (hb letters) (ht.known letters)
  last c hc := by
    rw [List.getLast?_append_of_ne_nil _ hne] at hc
    exact ht.last c hc

theorem knownWords_of_not_isLetter {text : List Char} (h : ∀ c ∈ text, isLetter c = false) :
    KnownWords text where
  known letters hletters := by
    rw [words_eq_nil h] at hletters
    cases hletters
  last c hc hletter := by
    rw [h c (List.mem_of_getLast? hc)] at hletter
    cases hletter

theorem knownWords_singleton {c : Char} (hc : isLetter c = false) : KnownWords [c] :=
  knownWords_of_not_isLetter fun a ha => by rwa [List.mem_singleton.1 ha]

theorem Key.knownWords_text (key : Key) : KnownWords key.text := by
  cases key with
  | digit c hc => exact knownWords_singleton (classes_of_isFigure (isFigure_of_isDigit hc)).2.1
  | operator c hc => exact knownWords_singleton (classes_of_isOperatorChar hc).2.1
  | point => exact knownWords_singleton rfl
  | lparen => exact knownWords_singleton rfl
  | rparen => exact knownWords_singleton rfl
  | constant k =>
    cases k with
    | pi => exact knownWords_singleton rfl
    | e =>
      refine ⟨fun letters hletters => ?_, fun c hc _ => ?_⟩
      · obtain rfl := List.mem_singleton.1 hletters
        exact .inl rfl
      · obtain rfl := Option.some.inj hc
        rfl
  | func f =>
    have hwords : words (Key.func f).text = [f.name] := by cases f <;> rfl
    refine ⟨fun letters hletters => ?_, fun c hc hletter => ?_⟩
    · rw [hwords, List.mem_singleton] at hletters
      subst hletters
      exact .inr (by simp)
    · obtain rfl : '(' = c := by simpa [Key.text] using hc
      cases hletter

/-- A key that starts with a letter opens what a value in front of it is multiplied with. -/
theorem Key.opensGroup_of_isLetter {key : Key} {c : Char} (hc : c ∈ key.text.head?)
    (hletter : isLetter c = true) : key.opensGroup = true := by
  cases key with
  | constant | func | lparen => rfl
  | digit d hd =>
    obtain rfl := Option.some.inj hc
    rw [(classes_of_isFigure (isFigure_of_isDigit hd)).2.1] at hletter
    cases hletter
  | operator o ho =>
    obtain rfl := Option.some.inj hc
    rw [(classes_of_isOperatorChar ho).2.1] at hletter
    cases hletter
  | point | rparen =>
    obtain rfl := Option.some.inj hc
    cases hletter

theorem KnownWords.insertKey {buffer : List Char} (h : KnownWords buffer) (key : Key) :
    KnownWords (insertKey buffer key) := by
  have hkey := key.knownWords_text
  have hne := key.text_ne_nil
  unfold PocketCalc.insertKey
  split_ifs with hop hpoint hempty htimes
  · -- the operator that gives way is no part of a word
    obtain ⟨hkeyop, hlast⟩ := Bool.and_eq_true_iff.1 hop
    obtain ⟨a, ha, haop⟩ := (Option.any_eq_true _ _).1 hlast
    obtain ⟨init, rfl⟩ := List.getLast?_eq_some_iff.1 ha
    have hinit (letters : List Char) (hletters : letters ∈ words init) : IsKnownWord letters := by
      refine h.known letters ?_
      rw [words_append]
      · exact List.mem_append_left _ hletters
      · rintro z - b hb ⟨-, hletter⟩
        obtain rfl := Option.some.inj hb
        rw [(classes_of_isOperatorChar haop).2.1] at hletter
        cases hletter
    rw [List.dropLast_concat]
    refine .append hinit hkey hne ?_
    rintro z - b hb ⟨-, hletter⟩
    have hopens := Key.opensGroup_of_isLetter hb hletter
    cases key with
    | operator => cases hopens
    | _ => cases hkeyop
  · exact h
  · exact hkey
  · have hstar : KnownWords (['*'] ++ key.text) := by
      refine .append (knownWords_singleton rfl).known hkey hne ?_
      rintro a ha b - ⟨hletter, -⟩
      obtain rfl := Option.some.inj ha
      cases hletter
    refine .append h.known hstar (List.cons_ne_nil _ _) ?_
    rintro a - b hb ⟨-, hletter⟩
    obtain rfl := Option.some.inj hb
    cases hletter
  · refine .append h.known hkey hne ?_
    rintro a ha b hb ⟨hletter, hb'⟩
    -- a text that ends in a letter ends a value, and a multiplication sign would be missing
    have hends : endsValue a = true := by simp [endsValue, h.last a ha hletter]
    have himplies : impliesTimes a key = true := by
      simp [impliesTimes, hends, Key.opensGroup_of_isLetter hb hb']
    exact htimes ((Option.any_eq_true _ _).2 ⟨a, ha, himplies⟩)

namespace Session

theorem kept_knownWords : Kept KnownWords where
  empty := knownWords_singleton rfl
  insertKey key h := h.insertKey key
  result d := by
    refine knownWords_of_not_isLetter fun c hc => ?_
    rw [Decimal.text_eq, List.mem_append] at hc
    rcases hc with hc | hc
    · split at hc
      · obtain rfl := List.mem_singleton.1 hc
        rfl
      · cases hc
    · exact (classes_of_isFigure (Decimal.isFigure_of_mem_figures hc)).2.1

/-- **What can go wrong in a session.**  No character is refused and no comma, the text is never
empty, and its RPN finds all its operands; and unless a character has been taken back, there is no
lexical error at all. -/
theorem canArise_of_lastError (settings : Settings) (actions : List Action) {error : CalcError}
    (h : (({ settings := settings } : Session).run actions).lastError = some error) :
    error.canArise = true ∧ (.delete ∉ actions → ∀ e, error ≠ .lexical e) := by
  rcases exists_evaluate_of_run h with hstart | ⟨earlier, hpre, hshown, heval⟩
  · cases hstart
  have hbuffer : WellFormedBuffer (({ settings := settings } : Session).run earlier).buffer :=
    InGoodOrder.run (fun _ => wellFormedBuffer_emptyBuffer) earlier hshown
  refine ⟨canArise_of_evaluate hbuffer heval, ?_⟩
  rintro hdelete e rfl
  have hwords : KnownWords (({ settings := settings } : Session).run earlier).buffer :=
    kept_knownWords.run (fun hmem => absurd (hpre.subset hmem) hdelete)
      (fun _ => kept_knownWords.empty) hshown
  exact hwords.tokenize_ne_error hbuffer.typed e (evaluate_eq_lexical_iff.1 heval)

/-- After `2.` and `e` the figures are one number, which has two points. -/
theorem canArise_two_points :
    (({} : Session).run [.append ['2'], .append ['.'], .append ['e'], .evaluate]).lastError =
      some (.evaluation (.badNumber ('2' :: '.' :: Constant.e.numeral))) ∧
    (CalcError.evaluation (.badNumber ('2' :: '.' :: Constant.e.numeral))).canArise = true ∧
    ∀ e, CalcError.evaluation (.badNumber ('2' :: '.' :: Constant.e.numeral)) ≠ .lexical e := by
  have hlast :
      (({} : Session).run [.append ['2'], .append ['.'], .append ['e'], .evaluate]).lastError =
        some (.evaluation (.badNumber ('2' :: '.' :: Constant.e.numeral))) := rfl
  obtain ⟨harise, hlexical⟩ := canArise_of_lastError {} _ hlast
  exact ⟨hlast, harise, hlexical (by simp)⟩

/-- A name that is cut short is an unknown word. -/
example : (({} : Session).run
    [.append ['l', 'n', '('], .delete, .delete, .evaluate]).lastError =
      some (.lexical (.unknownWord ['l'] 0)) := rfl

end Session

end PocketCalc
