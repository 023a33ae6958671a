import PocketCalc.Proofs.Token.Pieces

/-!
# The first offence in a text

A text has no tokens exactly if there is an offence in it: a character that is part of no token and
no blank, or a maximal run of letters that names no function.  The error is that of the leftmost
offence, whatever stands before it and behind it, and the text before it has tokens.

A lexeme offends exactly where there is an offence (`occursIn_iff`), and what has been read does not
offend (`Reads.not_offendsAt`).

Main statement: `tokenize_eq_error_iff_first`.
-/

namespace PocketCalc

/-! ### Offences -/

/-- `c` is no blank, and no token has it in its spelling. -/
structure IsForeign (c : Char) : Prop where
  /-- It is no blank. -/
  blank : Text.isBlank c = false
  /-- It is no operator. -/
  operator : ∀ o : BinOp, c ≠ o.symbol
  /-- It is no parenthesis and no comma. -/
  punctuation : c ≠ '(' ∧ c ≠ ')' ∧ c ≠ ','
  /-- It is no digit and no point. -/
  figure : c.isDigit = false ∧ c ≠ '.'
  /-- It is no letter. -/
  letter : isLetter c = false

namespace LexError

/-- The number of characters before the one that the error is about. -/
def position : LexError → Nat
  | unexpected _ position => position
  | unknownWord _ position => position

/-- The text gives reason for the error: at its position there is a foreign character, or a maximal
run of letters starts that is no function name. -/
def OccursIn (text : List Char) : LexError → Prop
  | unexpected c position => IsForeign c ∧ ∃ a b, text = a ++ c :: b ∧ a.length = position
  | unknownWord word position =>
    (∀ f : Func, f.name ≠ word) ∧
      ∃ a b, text = a ++ word ++ b ∧ a.length = position ∧ IsRun isLetter a word b

end LexError

open Lexeme

theorem isForeign_iff {c : Char} :
    IsForeign c ↔ (mark c).Proper ∧ Text.isBlank c = false ∧
      ∀ before, Token.ofMark? before c = none := by
  simp only [Token.ofMark?_eq_none_iff, forall_const]
  constructor
  · rintro ⟨hblank, hop, hpunctuation, ⟨hdigit, hpoint⟩, hletter⟩
    exact ⟨⟨hletter, by simp [isFigure, hdigit, hpoint]⟩, hblank, hop, hpunctuation⟩
  · rintro ⟨⟨hletter, hfigure⟩, hblank, hop, hpunctuation⟩
    exact ⟨hblank, hop, hpunctuation, by simpa [isFigure] using hfigure, hletter⟩

theorem ofName?_eq_none_iff {word : List Char} :
    Func.ofName? word = none ↔ ∀ f : Func, f.name ≠ word := by
  constructor
  · rintro h f rfl
    rw [Func.ofName?_name] at h
    cases h
  · intro h
    cases hname : Func.ofName? word with
    | none => rfl
    | some f => exact absurd (Func.name_of_ofName? hname) (h f)

theorem Lexeme.OffendsAt.position_eq {position : Nat} {l : Lexeme} {error : LexError}
    (h : l.OffendsAt position error) : error.position = position := by
  cases h with
  | word | mark => rfl

theorem Lexeme.OffendsAt.unique {position : Nat} {l : Lexeme} {error error' : LexError}
    (h : l.OffendsAt position error) (h' : l.OffendsAt position error') : error = error' := by
  cases h with
  | word | mark =>
    cases h'
    rfl

/-- **There is an offence in a text where one of its lexemes offends.** -/
theorem occursIn_iff {text : List Char} {error : LexError} :
    error.OccursIn text ↔
      ∃ (l : Lexeme) (a b : List Char), text = a ++ l.text ++ b ∧ l.StandsBetween a b ∧
        l.OffendsAt a.length error := by
  constructor
  · intro h
    cases error with
    | unexpected c position =>
      obtain ⟨hforeign, a, b, rfl, rfl⟩ := h
      obtain ⟨hproper, hblank, hmark⟩ := isForeign_iff.1 hforeign
      exact ⟨.mark c, a, b, by simp, hproper, .mark hblank hmark⟩
    | unknownWord word position =>
      obtain ⟨hname, a, b, rfl, rfl, hrun⟩ := h
      exact ⟨.word word, a, b, rfl, hrun, .word (ofName?_eq_none_iff.2 hname)⟩
  · rintro ⟨l, a, b, rfl, hstands, hoffends⟩
    cases hoffends with
    | word hname => exact ⟨ofName?_eq_none_iff.1 hname, a, b, rfl, rfl, hstands⟩
    | mark hblank hmark =>
      exact ⟨isForeign_iff.2 ⟨hstands, hblank, hmark⟩, a, b, by simp, rfl⟩

/-- What has been read does not offend. -/
theorem Reads.not_offendsAt {before : Option Token} {ks ms : List Lexeme} {l : Lexeme}
    {ts : List Token} (h : Reads before (ks ++ l :: ms) ts) (position : Nat) (error : LexError) :
    ¬ l.OffendsAt position error := by
  obtain ⟨us, vs, -, -, hrest⟩ := reads_append_iff.1 h
  exact fun hoffends => hoffends.not_reads _ _ _ hrest

/-! ### Errors -/

section

variable {text : List Char} {error : LexError}

/-- The error of a text is that of an offence, and the text before it has tokens. -/
theorem exists_offendsAt_of_tokenize (h : tokenize text = .error error) :
    ∃ (l : Lexeme) (a b : List Char) (us : List Token), text = a ++ l.text ++ b ∧
      l.StandsBetween a b ∧ l.OffendsAt a.length error ∧ Reads none (lexemes a) us := by
  obtain ⟨ks, l, ms, us, hls, hks, hl⟩ := exists_offendsAt_of_tokensOf h
  obtain ⟨a, b, rfl, hstands, rfl, rfl⟩ := lexemes_eq_append_cons_iff.1 hls
  rw [flatMap_text_lexemes, Nat.zero_add] at hl
  exact ⟨l, a, b, us, rfl, hstands, hl, hks⟩

/-- A text with an offence has no tokens. -/
theorem LexError.OccursIn.tokenize_ne_ok (h : error.OccursIn text) (ts : List Token) :
    tokenize text ≠ .ok ts := by
  intro hts
  obtain ⟨l, a, b, rfl, hstands, hoffends⟩ := occursIn_iff.1 h
  have hreads := reads_of_tokensOf hts
  rw [lexemes_eq_append_cons_iff.2 ⟨a, b, rfl, hstands, rfl, rfl⟩] at hreads
  exact hreads.not_offendsAt _ _ hoffends

theorem LexError.OccursIn.exists_error (h : error.OccursIn text) :
    ∃ e, tokenize text = .error e := by
  cases htokens : tokenize text with
  | error e => exact ⟨e, rfl⟩
  | ok ts => exact absurd htokens (h.tokenize_ne_ok ts)

/-- No offence comes before that of the error. -/
theorem position_le_of_tokenize (h : tokenize text = .error error) {e : LexError}
    (he : e.OccursIn text) : error.position ≤ e.position := by
  obtain ⟨l, a, b, us, htext, hstands, hoffends, hreads⟩ := exists_offendsAt_of_tokenize h
  obtain ⟨l', a', b', htext', hstands', hoffends'⟩ := occursIn_iff.1 he
  rw [hoffends.position_eq, hoffends'.position_eq]
  have hcut := lexemes_eq_append_cons_iff.2 ⟨a, b, htext, hstands, rfl, rfl⟩
  have hcut' := lexemes_eq_append_cons_iff.2 ⟨a', b', htext', hstands', rfl, rfl⟩
  rcases List.append_eq_append_iff.1 (hcut.symm.trans hcut') with ⟨ks, hks, -⟩ | ⟨ks, hks, hrest⟩
  · rw [← flatMap_text_lexemes a', hks, List.flatMap_append, flatMap_text_lexemes,
      List.length_append]
    exact Nat.le_add_right _ _
  · cases ks with
    | nil =>
      rw [List.append_nil] at hks
      rw [← flatMap_text_lexemes a, hks, flatMap_text_lexemes]
    | cons k ks =>
      -- the other offence would be among what has been read
      obtain ⟨rfl, -⟩ := List.cons.inj hrest
      rw [hks] at hreads
      exact absurd hoffends' (hreads.not_offendsAt _ _)

/-- At one position there is one offence. -/
theorem LexError.OccursIn.eq_of_position_eq {e : LexError} (h : error.OccursIn text)
    (he : e.OccursIn text) (hposition : error.position = e.position) : error = e := by
  obtain ⟨l, a, b, htext, hstands, hoffends⟩ := occursIn_iff.1 h
  obtain ⟨l', a', b', htext', hstands', hoffends'⟩ := occursIn_iff.1 he
  have hlength : a.length = a'.length :=
    hoffends.position_eq.symm.trans (hposition.trans hoffends'.position_eq)
  obtain rfl : a = a' := by
    rw [List.append_assoc] at htext htext'
    exact List.append_inj_left (htext.symm.trans htext') hlength
  have hcut := lexemes_eq_append_cons_iff.2 ⟨a, b, htext, hstands, rfl, rfl⟩
  have hcut' := lexemes_eq_append_cons_iff.2 ⟨a, b', htext', hstands', rfl, rfl⟩
  obtain ⟨rfl, -⟩ := List.cons.inj (List.append_cancel_left (hcut.symm.trans hcut'))
  exact hoffends.unique hoffends'

end

/-- **A text has no tokens exactly if there is an offence in it, and the error is that of the
leftmost one.**  The text before this offence has tokens. -/
theorem tokenize_eq_error_iff_first (text : List Char) :
    ((∃ error, tokenize text = .error error) ↔ ∃ error : LexError, error.OccursIn text) ∧
    ∀ error, (tokenize text = .error error ↔
        error.OccursIn text ∧ ∀ e : LexError, e.OccursIn text → error.position ≤ e.position) ∧
      (tokenize text = .error error → ∃ ts, tokenize (text.take error.position) = .ok ts) := by
  have hoccurs {error : LexError} (h : tokenize text = .error error) : error.OccursIn text := by
    obtain ⟨l, a, b, -, htext, hstands, hoffends, -⟩ := exists_offendsAt_of_tokenize h
    exact occursIn_iff.2 ⟨l, a, b, htext, hstands, hoffends⟩
  refine ⟨⟨fun ⟨error, h⟩ => ⟨error, hoccurs h⟩, fun ⟨_, h⟩ => h.exists_error⟩, fun error => ?_⟩
  refine ⟨⟨fun h => ⟨hoccurs h, fun e => position_le_of_tokenize h⟩, fun ⟨h, hfirst⟩ => ?_⟩,
    fun h => ?_⟩
  · obtain ⟨e, he⟩ := h.exists_error
    have hposition := Nat.le_antisymm (hfirst e (hoccurs he)) (position_le_of_tokenize he h)
    rwa [h.eq_of_position_eq (hoccurs he) hposition]
  · obtain ⟨l, a, b, us, rfl, -, hoffends, hreads⟩ := exists_offendsAt_of_tokenize h
    rw [hoffends.position_eq, List.append_assoc, List.take_left]
    exact ⟨us, hreads.tokensOf_eq 0⟩

/-- A word that only starts as the name of a function is reported as a whole, and what comes behind
it is not reported. -/
theorem tokenize_eq_error_iff_first_sinh :
    tokenize ['2', '\u2003', '-', 's', 'i', 'n', 'h', '3', '#'] =
      .error (.unknownWord ['s', 'i', 'n', 'h'] 3) ∧
    (LexError.unknownWord ['s', 'i', 'n', 'h'] 3).OccursIn
      ['2', '\u2003', '-', 's', 'i', 'n', 'h', '3', '#'] ∧
    (∀ e : LexError, e.OccursIn ['2', '\u2003', '-', 's', 'i', 'n', 'h', '3', '#'] →
      3 ≤ e.position) ∧
    ∃ ts, tokenize ['2', '\u2003', '-'] = .ok ts := by
  have herror : tokenize ['2', '\u2003', '-', 's', 'i', 'n', 'h', '3', '#'] =
      .error (.unknownWord ['s', 'i', 'n', 'h'] 3) := rfl
  obtain ⟨hiff, hbefore⟩ := (tokenize_eq_error_iff_first _).2 (.unknownWord ['s', 'i', 'n', 'h'] 3)
  obtain ⟨hoccurs, hfirst⟩ := hiff.1 herror
  exact ⟨herror, hoccurs, hfirst, hbefore herror⟩

end PocketCalc
