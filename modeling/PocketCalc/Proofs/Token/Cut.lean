import PocketCalc.Proofs.Token.Pieces

/-!
# Texts and their tokens

The tokens of a text are its pieces one by one: each maximal run of digits and points, each maximal
run of letters and each other character, with only the blanks left out (`Reads.isCutInto`).  Blanks
between two pieces are skipped, so that more of them change nothing (`Reads.insert_blanks`).

Main statement: `isCutInto_and_tokenize_blanks`.
-/

namespace PocketCalc

open Lexeme

/-! ### What the tokens spell -/

/-- A text without its blanks. -/
def visible (text : List Char) : List Char := text.filter fun c => !Text.isBlank c

theorem visible_append (a b : List Char) : visible (a ++ b) = visible a ++ visible b :=
  List.filter_append a b

theorem Lexeme.ReadsAs.text_eq {before : Option Token} {l : Lexeme} {t : Token}
    (h : l.ReadsAs before t) : l.text = t.spelling := by
  cases h with
  | word hname => exact (Func.name_of_ofName? hname).symm
  | figures text => rfl
  | mark ht =>
    rcases Token.ofMark?_cases ht with ⟨o, rfl, rfl⟩ | ⟨rfl, rfl⟩ | ⟨rfl, rfl⟩ | ⟨rfl, rfl⟩
    · by_cases hneg : o = .sub ∧ startsOperand before = true
      · rw [if_pos hneg, hneg.1]
        rfl
      · rw [if_neg hneg]
        rfl
    · rfl
    · rfl
    · rfl

/-- What is read as a token holds no blank. -/
theorem Lexeme.ReadsAs.isBlank_eq_false {before : Option Token} {l : Lexeme} {t : Token} {c : Char}
    (h : l.ReadsAs before t) (hl : l.Proper) (hc : c ∈ l.text) : Text.isBlank c = false := by
  refine Bool.eq_false_iff.2 fun hblank => ?_
  obtain ⟨hletter, hfigure⟩ := proper_mark_of_isBlank hblank
  obtain ⟨hword, hfigures⟩ := hl.classes_of_mem hc
  cases h with
  | word =>
    rw [hletter] at hword
    cases hword
  | figures =>
    rw [hfigure] at hfigures
    cases hfigures
  | mark ht =>
    obtain rfl := List.mem_singleton.1 hc
    rw [Token.isBlank_of_ofMark? ht] at hblank
    cases hblank

/-- **Nothing but blanks is left out.** -/
theorem Reads.flatMap_spelling {before : Option Token} {ls : List Lexeme} {ts : List Token}
    (h : Reads before ls ts) (hls : ∀ l ∈ ls, l.Proper) :
    ts.flatMap Token.spelling = visible (ls.flatMap Lexeme.text) := by
  induction h with
  | nil => rfl
  | blank hc _ ih =>
    rw [ih (List.forall_mem_cons.1 hls).2, List.flatMap_cons, visible_append]
    simp [visible, hc]
  | @cons _ l _ _ _ hl _ ih =>
    obtain ⟨hproper, hls⟩ := List.forall_mem_cons.1 hls
    have hvisible : visible l.text = l.text :=
      List.filter_eq_self.2 fun c hc => by simp [hl.isBlank_eq_false hproper hc]
    rw [List.flatMap_cons, ih hls, List.flatMap_cons, visible_append, hvisible, hl.text_eq]

/-- The tokens that a text is read as spell what is visible of it. -/
theorem Reads.flatMap_spelling_lexemes {before : Option Token} {text : List Char}
    {ts : List Token} (h : Reads before (lexemes text) ts) :
    ts.flatMap Token.spelling = visible text := by
  rw [h.flatMap_spelling fun _ => proper_of_mem_lexemes, flatMap_text_lexemes]

/-! ### The tokens of a text -/

/-- Between `a` and `b`, a number is a maximal run of digits and points, a function is a maximal run
of letters, and any other token is a character of another kind. -/
def Token.IsPieceBetween (a b : List Char) : Token → Prop
  | number text => IsRun isFigure a text b
  | func f => IsRun isLetter a f.name b
  | t => ∃ c, t.spelling = [c] ∧ isLetter c = false ∧ isFigure c = false

/-- Among the tokens, `t` is the one between what is visible of `a` and of `b`. -/
def HasTokenBetween (ts : List Token) (a b : List Char) (t : Token) : Prop :=
  ∃ us vs, ts = us ++ t :: vs ∧ us.flatMap Token.spelling = visible a ∧
    vs.flatMap Token.spelling = visible b

/-- The text is cut into the tokens: they are its maximal runs of digits and points, its maximal
runs of letters and its other characters, without the blanks. -/
structure IsCutInto (text : List Char) (ts : List Token) : Prop where
  /-- The tokens spell what is visible of the text. -/
  spelling : ts.flatMap Token.spelling = visible text
  /-- Each token is cut out as a whole. -/
  token : ∀ us t vs, ts = us ++ t :: vs → ∃ a b, text = a ++ t.spelling ++ b ∧
    us.flatMap Token.spelling = visible a ∧ vs.flatMap Token.spelling = visible b ∧
    t.IsPieceBetween a b
  /-- Each maximal run of digits and points is a number. -/
  figures : ∀ a run b, text = a ++ run ++ b → IsRun isFigure a run b →
    HasTokenBetween ts a b (.number run)
  /-- Each maximal run of letters is a function. -/
  letters : ∀ a run b, text = a ++ run ++ b → IsRun isLetter a run b →
    ∃ f : Func, f.name = run ∧ HasTokenBetween ts a b (.func f)
  /-- Each other character that is no blank is a token. -/
  mark : ∀ a c b, text = a ++ c :: b → isLetter c = false → isFigure c = false →
    Text.isBlank c = false → ∃ t, t.spelling = [c] ∧ HasTokenBetween ts a b t

/-- A piece that is no blank is read as a token of its own. -/
theorem Reads.exists_hasTokenBetween {before : Option Token} {a b : List Char} {l : Lexeme}
    {ts : List Token} (h : Reads before (lexemes (a ++ l.text ++ b)) ts)
    (hl : l.StandsBetween a b) (hblank : ∀ c, l = .mark c → Text.isBlank c = false) :
    ∃ before' t, l.ReadsAs before' t ∧ HasTokenBetween ts a b t := by
  rw [lexemes_eq_append_cons_iff.2 ⟨a, b, rfl, hl, rfl, rfl⟩, reads_append_iff] at h
  obtain ⟨us, _, rfl, hus, hrest⟩ := h
  cases hrest with
  | blank hc =>
    rw [hblank _ rfl] at hc
    cases hc
  | @cons _ _ t _ vs ht hvs =>
    exact ⟨_, t, ht, us, vs, rfl, hus.flatMap_spelling_lexemes, hvs.flatMap_spelling_lexemes⟩

/-- What is read from a piece is cut out as that piece. -/
theorem Lexeme.ReadsAs.isPieceBetween {before : Option Token} {a b : List Char} {l : Lexeme}
    {t : Token} (h : l.ReadsAs before t) (hl : l.StandsBetween a b) : t.IsPieceBetween a b := by
  have htext := h.text_eq
  cases h with
  | word hname =>
    rw [← Func.name_of_ofName? hname] at hl
    exact hl
  | figures text => exact hl
  | mark ht =>
    rcases Token.ofMark?_cases ht with ⟨o, -, rfl⟩ | ⟨-, rfl⟩ | ⟨-, rfl⟩ | ⟨-, rfl⟩
    · by_cases hneg : o = .sub ∧ startsOperand before = true
      · rw [if_pos hneg] at htext ⊢
        exact ⟨_, htext.symm, hl⟩
      · rw [if_neg hneg] at htext ⊢
        exact ⟨_, htext.symm, hl⟩
    · exact ⟨_, htext.symm, hl⟩
    · exact ⟨_, htext.symm, hl⟩
    · exact ⟨_, htext.symm, hl⟩

theorem Reads.isCutInto {before : Option Token} {text : List Char} {ts : List Token}
    (h : Reads before (lexemes text) ts) : IsCutInto text ts where
  spelling := h.flatMap_spelling_lexemes
  token us t vs hts := by
    subst hts
    obtain ⟨ks, l, ms, hls, hks, hl, hms⟩ := h.exists_of_append_cons
    obtain ⟨a, b, rfl, hstands, rfl, rfl⟩ := lexemes_eq_append_cons_iff.1 hls
    rw [hl.text_eq]
    exact ⟨a, b, rfl, hks.flatMap_spelling_lexemes, hms.flatMap_spelling_lexemes,
      hl.isPieceBetween hstands⟩
  figures a run b htext hrun := by
    subst htext
    obtain ⟨before', t, ht, hplace⟩ := h.exists_hasTokenBetween (l := .figures run) hrun nofun
    cases ht
    exact hplace
  letters a run b htext hrun := by
    subst htext
    obtain ⟨before', t, ht, hplace⟩ := h.exists_hasTokenBetween (l := .word run) hrun nofun
    cases ht with
    | word hname => exact ⟨_, Func.name_of_ofName? hname, hplace⟩
  mark a c b htext hletter hfigure hblank := by
    have hmark : text = a ++ (Lexeme.mark c).text ++ b := by simpa using htext
    subst hmark
    obtain ⟨before', t, ht, hplace⟩ :=
      h.exists_hasTokenBetween ⟨hletter, hfigure⟩ fun c' hc' => mark.inj hc' ▸ hblank
    exact ⟨t, ht.text_eq.symm, hplace⟩

/-- More blanks between two pieces change nothing. -/
theorem Reads.insert_blanks {before : Option Token} {a gap b : List Char} {ts : List Token}
    (h : Reads before (lexemes (a ++ b)) ts) (hgap : ∀ c ∈ gap, Text.isBlank c = true)
    (hapart : Apart a b) : Reads before (lexemes (a ++ gap ++ b)) ts := by
  rw [lexemes_append_eq_iff.2 hapart, reads_append_iff] at h
  obtain ⟨us, vs, rfl, hus, hvs⟩ := h
  have hlexemes : lexemes (a ++ gap ++ b) = lexemes a ++ (gap.map .mark ++ lexemes b) := by
    rw [List.append_assoc]
    by_cases hne : gap = []
    · rw [hne]
      exact lexemes_append_eq_iff.2 hapart
    · exact lexemes_append_blanks hne hgap a b
  rw [hlexemes, reads_append_iff]
  exact ⟨us, vs, rfl, hus, hvs.blanks hgap⟩

/-- **A text is cut into its longest pieces, and only blanks are left out.**  The tokens of a text
spell what is visible of it; each maximal run of digits and points, each maximal run of letters and
each other character is one of them.  Hence blanks that are put in where no run goes across change
nothing. -/
theorem isCutInto_and_tokenize_blanks {text : List Char} {ts : List Token}
    (h : tokenize text = .ok ts) :
    IsCutInto text ts ∧
    ∀ a gap b, text = a ++ b → (∀ c ∈ gap, Text.isBlank c = true) → Apart a b →
      tokenize (a ++ gap ++ b) = .ok ts := by
  have hreads := reads_of_tokensOf h
  refine ⟨hreads.isCutInto, fun a gap b htext hgap hapart => ?_⟩
  subst htext
  exact (hreads.insert_blanks hgap hapart).tokensOf_eq 0

/-- A number and a function that touch are two pieces, and blanks may stand between them. -/
theorem isCutInto_and_tokenize_blanks_touching :
    IsCutInto ['1', '.', '5', 'l', 'n', '-', '2']
      [.number ['1', '.', '5'], .func .ln, .op .sub, .number ['2']] ∧
    tokenize ['1', '.', '5', '\u2003', ' ', 'l', 'n', '-', '2'] =
      .ok [.number ['1', '.', '5'], .func .ln, .op .sub, .number ['2']] := by
  have htokens : tokenize ['1', '.', '5', 'l', 'n', '-', '2'] =
      .ok [.number ['1', '.', '5'], .func .ln, .op .sub, .number ['2']] := rfl
  have hapart : Apart ['1', '.', '5'] ['l', 'n', '-', '2'] := by
    intro c hc d hd
    obtain rfl := Option.some.inj hc
    obtain rfl := Option.some.inj hd
    decide
  have hgap : ∀ c ∈ ['\u2003', ' '], Text.isBlank c = true := List.all_eq_true.1 rfl
  obtain ⟨hcut, hblanks⟩ := isCutInto_and_tokenize_blanks htokens
  exact ⟨hcut, hblanks ['1', '.', '5'] ['\u2003', ' '] ['l', 'n', '-', '2'] rfl hgap hapart⟩

end PocketCalc
