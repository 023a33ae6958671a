import PocketCalc.Proofs.Token.Runs

/-!
# Tokens are read back from their spelling

Written with blanks between them, tokens are lexemes that do not join: each is read as the token
that it spells, and the blanks are skipped (`reads_spaced`).  The spelling does not show whether a
minus sign subtracts, which its place has to tell; the lists of tokens in which it does are exactly
those that texts are cut into.

Main statement: `isLexical_and_tokenize_spaced`.
-/

namespace PocketCalc

/-! ### Lexical lists -/

/-- Behind these tokens an operand has to start: there are none, or the last of them is an operator,
a minus sign in front of an operand, an opening parenthesis or a separator. -/
def OperandStarts (before : List Token) : Prop :=
  before = [] ∨ ∃ t ∈ before.getLast?, (∃ o, t = .op o) ∨ t = .neg ∨ t = .lparen ∨ t = .comma

/-- Numbers are made of digits and points, and of the two uses of the minus sign each stands where
it can be told from the other. -/
structure IsLexical (ts : List Token) : Prop where
  /-- A number has a text, of digits and points. -/
  number : ∀ text, .number text ∈ ts → text ≠ [] ∧ ∀ c ∈ text, c.isDigit = true ∨ c = '.'
  /-- A minus sign in front of an operand stands where an operand has to start. -/
  neg : ∀ us vs, ts = us ++ .neg :: vs → OperandStarts us
  /-- A minus sign that subtracts does not. -/
  sub : ∀ us vs, ts = us ++ .op .sub :: vs → ¬ OperandStarts us

theorem startsOperand_some_iff {t : Token} :
    startsOperand (some t) = true ↔ (∃ o, t = .op o) ∨ t = .neg ∨ t = .lparen ∨ t = .comma := by
  cases t <;> simp [startsOperand]

theorem startsOperand_getLast?_iff {us : List Token} :
    startsOperand us.getLast? = true ↔ OperandStarts us := by
  unfold OperandStarts
  cases hlast : us.getLast? with
  | none => exact iff_of_true rfl (.inl (List.getLast?_eq_none_iff.1 hlast))
  | some t =>
    have hne : us ≠ [] := by
      rintro rfl
      cases hlast
    rw [startsOperand_some_iff]
    simp [hne]

theorem getLast?_cons_or (u : Token) (us : List Token) (before : Option Token) :
    (u :: us).getLast?.or before = us.getLast?.or (some u) := by
  rw [List.getLast?_cons]
  cases us.getLast? <;> rfl

/-- Each token fits after the one right before it. -/
theorem lexical_iff_forall {before : Option Token} {ts : List Token} :
    Lexical before ts ↔
      ∀ us t vs, ts = us ++ t :: vs → t.FitsAfter (us.getLast?.or before) := by
  induction ts generalizing before with
  | nil =>
    refine iff_of_true trivial fun us t vs h => ?_
    cases List.append_ne_nil_of_right_ne_nil us (List.cons_ne_nil t vs) h.symm
  | cons u ts ih =>
    rw [Lexical, ih]
    constructor
    · rintro ⟨hu, hts⟩ us t vs h
      cases us with
      | nil =>
        obtain ⟨rfl, -⟩ := List.cons.inj h
        exact hu
      | cons w us =>
        obtain ⟨rfl, rfl⟩ := List.cons.inj h
        rw [getLast?_cons_or]
        exact hts us t vs rfl
    · intro h
      refine ⟨h [] u ts rfl, fun us t vs hts => ?_⟩
      have hfits := h (u :: us) t vs (congrArg (u :: ·) hts)
      rwa [getLast?_cons_or] at hfits

/-- **Lexical lists are those in which each token fits after the one before it.** -/
theorem lexical_none_iff {ts : List Token} : Lexical none ts ↔ IsLexical ts := by
  rw [lexical_iff_forall]
  constructor
  · intro h
    refine ⟨fun text hmem => ?_, fun us vs hts => ?_, fun us vs hts => ?_⟩
    · obtain ⟨us, vs, hts⟩ := List.append_of_mem hmem
      obtain ⟨hne, hfigures⟩ := h us _ vs hts
      exact ⟨hne, fun c hc => isFigure_iff.1 (hfigures c hc)⟩
    · have hstarts := h us _ vs hts
      rw [Option.or_none] at hstarts
      exact startsOperand_getLast?_iff.1 hstarts
    · have hstarts := h us _ vs hts
      rw [Option.or_none] at hstarts
      exact mt startsOperand_getLast?_iff.2 (Bool.eq_false_iff.1 hstarts)
  · intro h us t vs hts
    rw [Option.or_none]
    cases t with
    | number text =>
      obtain ⟨hne, hfigures⟩ := h.number text (hts ▸ List.mem_append_right _ List.mem_cons_self)
      exact ⟨hne, fun c hc => isFigure_iff.2 (hfigures c hc)⟩
    | neg => exact startsOperand_getLast?_iff.2 (h.neg us vs hts)
    | op o =>
      cases o with
      | sub => exact Bool.eq_false_iff.2 (mt startsOperand_getLast?_iff.1 (h.sub us vs hts))
      | add | mul | div | pow => trivial
    | func | lparen | rparen | comma => trivial

/-! ### The spelling of a token -/

open Lexeme

namespace Token

/-- A token as it is typed: the two uses of the minus sign do not differ. -/
def spelling : Token → List Char
  | neg => ['-']
  | t => t.text

/-- The lexeme that the spelling of a token is. -/
def lexeme : Token → Lexeme
  | number text => .figures text
  | op o => .mark o.symbol
  | neg => .mark '-'
  | func f => .word f.name
  | lparen => .mark '('
  | rparen => .mark ')'
  | comma => .mark ','

variable {t : Token} {before : Option Token}

theorem text_lexeme (t : Token) : t.lexeme.text = t.spelling := by
  cases t <;> rfl

theorem FitsAfter.proper_lexeme (h : t.FitsAfter before) : t.lexeme.Proper := by
  cases t with
  | number text => exact h
  | op o => exact proper_mark_symbol o
  | func f => exact ⟨by cases f <;> decide, fun c hc => isLetter_of_mem_name hc⟩
  | neg | lparen | rparen | comma => exact ⟨by decide, by decide⟩

/-- **Where a token fits, its spelling is read as the token.** -/
theorem FitsAfter.readsAs (h : t.FitsAfter before) : t.lexeme.ReadsAs before t := by
  cases t with
  | number text => exact .figures text
  | op o =>
    refine .mark ((ofMark?_symbol before o).trans (congrArg some (if_neg ?_)))
    rintro ⟨rfl, hstart⟩
    have hstop : startsOperand before = false := h
    rw [hstart] at hstop
    cases hstop
  | neg => exact .mark ((ofMark?_symbol before .sub).trans (congrArg some (if_pos ⟨rfl, h⟩)))
  | func f => exact .word (Func.ofName?_name f)
  | lparen | rparen | comma => exact .mark rfl

end Token

/-! ### Blanks -/

theorem toNat_of_isBlank {c : Char} (h : Text.isBlank c = true) : c.toNat ≤ 32 ∨ 133 ≤ c.toNat := by
  obtain ⟨r, hr, hlow, hhigh⟩ := Text.mem_of_inRanges.1 h
  have hrange : ∀ r ∈ Text.blankRanges, r.2 ≤ 32 ∨ 133 ≤ r.1 := by decide
  rcases hrange r hr with hle | hle
  · exact .inl (hhigh.trans hle)
  · exact .inr (hle.trans hlow)

/-- A blank is neither a letter nor a digit or point. -/
theorem proper_mark_of_isBlank {c : Char} (h : Text.isBlank c = true) : (mark c).Proper := by
  have hblank := toNat_of_isBlank h
  refine ⟨Bool.eq_false_iff.2 fun hletter => ?_, Bool.eq_false_iff.2 fun hfigure => ?_⟩
  · have hrange := toNat_of_isLetter hletter
    omega
  · have hrange := toNat_of_isFigure hfigure
    omega

variable {gap : List Char}

theorem lexemes_blanks_append (hgap : ∀ c ∈ gap, Text.isBlank c = true) (b : List Char) :
    lexemes (gap ++ b) = gap.map mark ++ lexemes b := by
  induction gap with
  | nil => rfl
  | cons c gap ih =>
    obtain ⟨hc, hgap⟩ := List.forall_mem_cons.1 hgap
    rw [List.cons_append, lexemes_mark_cons (proper_mark_of_isBlank hc), ih hgap, List.map_cons,
      List.cons_append]

/-- Blanks keep the texts on their two sides apart. -/
theorem lexemes_append_blanks (hne : gap ≠ []) (hgap : ∀ c ∈ gap, Text.isBlank c = true)
    (a b : List Char) : lexemes (a ++ (gap ++ b)) = lexemes a ++ (gap.map mark ++ lexemes b) := by
  cases gap with
  | nil => exact absurd rfl hne
  | cons c gap =>
    obtain ⟨hc, hgap⟩ := List.forall_mem_cons.1 hgap
    rw [List.cons_append, lexemes_append_mark (proper_mark_of_isBlank hc),
      lexemes_blanks_append hgap, List.map_cons, List.cons_append]

/-- Blanks are skipped. -/
theorem Reads.blanks {before : Option Token} {ls : List Lexeme} {ts : List Token}
    (hgap : ∀ c ∈ gap, Text.isBlank c = true) (h : Reads before ls ts) :
    Reads before (gap.map mark ++ ls) ts := by
  induction gap with
  | nil => exact h
  | cons c gap ih =>
    obtain ⟨hc, hgap⟩ := List.forall_mem_cons.1 hgap
    exact .blank hc (ih hgap)

/-! ### Tokens with blanks between them -/

/-- Tokens as they are typed, with the text `gap i` behind the one at place `i` if another one
follows. -/
def spaced (gap : ℕ → List Char) : List Token → List Char
  | [] => []
  | [t] => t.spelling
  | t :: u :: ts => t.spelling ++ (gap 0 ++ spaced (fun i => gap (i + 1)) (u :: ts))

/-- The texts between tokens are blank, and none of them is empty. -/
def IsBlankGap (gap : ℕ → List Char) : Prop :=
  ∀ i, gap i ≠ [] ∧ ∀ c ∈ gap i, Text.isBlank c = true

theorem reads_spaced {before : Option Token} {ts : List Token} {gap : ℕ → List Char}
    (hts : Lexical before ts) (hgap : IsBlankGap gap) :
    Reads before (lexemes (spaced gap ts)) ts := by
  induction ts generalizing before gap with
  | nil => exact .nil before
  | cons t ts ih =>
    obtain ⟨hfits, hrest⟩ := hts
    have hlexeme : lexemes t.spelling = [t.lexeme] := by
      rw [← t.text_lexeme, lexemes_text hfits.proper_lexeme]
    cases ts with
    | nil =>
      rw [spaced, hlexeme]
      exact .cons hfits.readsAs (.nil _)
    | cons u ts =>
      obtain ⟨hne, hblank⟩ := hgap 0
      rw [spaced, lexemes_append_blanks hne hblank, hlexeme]
      exact .cons hfits.readsAs ((ih hrest fun i => hgap (i + 1)).blanks hblank)

/-- **Cutting a text into tokens and writing them down undo each other.**  The tokens of a text are
a lexical list, and a lexical list that is written with any blanks between its tokens, one at least
after each but the last, is read back. -/
theorem isLexical_and_tokenize_spaced :
    (∀ text ts, tokenize text = .ok ts → IsLexical ts) ∧
    ∀ ts gap, IsLexical ts → IsBlankGap gap → tokenize (spaced gap ts) = .ok ts := by
  refine ⟨fun text ts h => lexical_none_iff.1 (lexical_of_tokenize h), fun ts gap hts hgap => ?_⟩
  exact (reads_spaced (lexical_none_iff.2 hts) hgap).tokensOf_eq 0

/-- Gaps that get wider do not hide which of two minus signs subtracts. -/
theorem isLexical_and_tokenize_spaced_minus :
    IsLexical [.number ['2'], .op .sub, .neg, .func .sin, .number ['.', '5']] ∧
      IsBlankGap (fun i => '\u2003' :: List.replicate i ' ') ∧
      tokenize ['2', '\u2003', '-', '\u2003', ' ', '-', '\u2003', ' ', ' ', 's', 'i', 'n',
          '\u2003', ' ', ' ', ' ', '.', '5'] =
        .ok [.number ['2'], .op .sub, .neg, .func .sin, .number ['.', '5']] := by
  obtain ⟨hlexical, hspaced⟩ := isLexical_and_tokenize_spaced
  have hts : IsLexical [.number ['2'], .op .sub, .neg, .func .sin, .number ['.', '5']] :=
    hlexical ['2', '-', '-', 's', 'i', 'n', '.', '5'] _ rfl
  have hgap : IsBlankGap (fun i => '\u2003' :: List.replicate i ' ') := by
    intro i
    refine ⟨List.cons_ne_nil _ _, List.forall_mem_cons.2 ⟨by decide, fun c hc => ?_⟩⟩
    rw [List.eq_of_mem_replicate hc]
    decide
  exact ⟨hts, hgap, hspaced _ _ hts hgap⟩

end PocketCalc
