import PocketCalc.Token.Lexer

/-!
# What the lexer can write

The lexer skips blanks and reads any other lexeme as a token (`Reads`).  It refuses nothing but a
word that is no function and a mark that is no token (`exists_offendsAt_of_tokensOf`).

Each token that `tokenize` writes fits after the one before it (`lexical_of_tokenize`): a number is
a run of digits and points, and the two uses of the minus sign stand where the sign before them
allows the one and not the other.
-/

namespace PocketCalc

/-- The token can stand after the token `before`, or first. -/
def Token.FitsAfter (before : Option Token) : Token → Prop
  | number text => text ≠ [] ∧ ∀ c ∈ text, isFigure c = true
  | neg => startsOperand before = true
  | op .sub => startsOperand before = false
  | _ => True

/-- Each of the tokens can stand where it does, the first of them after the token `before`. -/
def Lexical : Option Token → List Token → Prop
  | _, [] => True
  | before, t :: ts => t.FitsAfter before ∧ Lexical (some t) ts

/-! ### Proper lexemes -/

/-- The lexeme is a run of characters of its kind, or a character that makes no run. -/
def Lexeme.Proper : Lexeme → Prop
  | word letters => letters ≠ [] ∧ ∀ c ∈ letters, isLetter c = true
  | figures text => text ≠ [] ∧ ∀ c ∈ text, isFigure c = true
  | mark c => isLetter c = false ∧ isFigure c = false

theorem Lexeme.proper_ofChar (c : Char) : (ofChar c).Proper := by
  unfold ofChar
  by_cases hl : isLetter c = true
  · simp [hl, Proper]
  · by_cases hf : isFigure c = true
    · simp [hl, hf, Proper]
    · simp [hl, hf, Proper]

theorem Lexeme.proper_of_mem_join {c : Char} {ls : List Lexeme} (h : ∀ l ∈ ls, l.Proper)
    {l : Lexeme} (hl : l ∈ join c ls) : l.Proper := by
  have hcons {ls : List Lexeme} (h : ∀ l ∈ ls, l.Proper) (hl : l ∈ ofChar c :: ls) : l.Proper := by
    rcases List.mem_cons.1 hl with rfl | hl
    · exact proper_ofChar c
    · exact h l hl
  unfold join at hl
  split at hl
  · rename_i letters rest
    split at hl
    · rename_i hc
      rcases List.mem_cons.1 hl with rfl | hl
      · have hword : (word letters).Proper := h _ List.mem_cons_self
        exact ⟨List.cons_ne_nil _ _, List.forall_mem_cons.2 ⟨hc, hword.2⟩⟩
      · exact h l (List.mem_cons_of_mem _ hl)
    · exact hcons h hl
  · rename_i text rest
    split at hl
    · rename_i hc
      rcases List.mem_cons.1 hl with rfl | hl
      · have hfigures : (figures text).Proper := h _ List.mem_cons_self
        exact ⟨List.cons_ne_nil _ _, List.forall_mem_cons.2 ⟨hc, hfigures.2⟩⟩
      · exact h l (List.mem_cons_of_mem _ hl)
    · exact hcons h hl
  · exact hcons h hl

theorem exists_mem_getLast? {α : Type} {p : α → Prop} {l : List α}
    (h : l ≠ [] ∧ ∀ a ∈ l, p a) : ∃ a ∈ l.getLast?, p a :=
  ⟨_, List.getLast?_eq_some_getLast h.1, h.2 _ (List.getLast_mem h.1)⟩

theorem exists_mem_head? {α : Type} {p : α → Prop} {l : List α}
    (h : l ≠ [] ∧ ∀ a ∈ l, p a) : ∃ a ∈ l.head?, p a :=
  ⟨_, List.head?_eq_some_head h.1, h.2 _ (List.head_mem h.1)⟩

/-- The lexemes of a text are proper ones. -/
theorem proper_of_mem_lexemes {text : List Char} {l : Lexeme} (h : l ∈ lexemes text) :
    l.Proper := by
  induction text generalizing l with
  | nil => cases h
  | cons c rest ih => exact Lexeme.proper_of_mem_join (fun _ => ih) h

theorem mem_of_mem_lexemes {text : List Char} {l : Lexeme} {c : Char} (hl : l ∈ lexemes text)
    (hc : c ∈ l.text) : c ∈ text := by
  rw [← flatMap_text_lexemes text]
  exact List.mem_flatMap.2 ⟨l, hl, hc⟩

/-! ### Tokens -/

/-- The marks that stand for tokens. -/
theorem Token.ofMark?_cases {before : Option Token} {c : Char} {t : Token}
    (h : ofMark? before c = some t) :
    (∃ o : BinOp, c = o.symbol ∧ t = if o = .sub ∧ startsOperand before then .neg else .op o) ∨
      c = '(' ∧ t = .lparen ∨ c = ')' ∧ t = .rparen ∨ c = ',' ∧ t = .comma := by
  unfold ofMark? at h
  split at h
  · rename_i o ho
    exact .inl ⟨o, (BinOp.symbol_of_ofSymbol? ho).symm, (Option.some.inj h).symm⟩
  · split at h
    · exact .inr (.inl ⟨‹_›, (Option.some.inj h).symm⟩)
    · split at h
      · exact .inr (.inr (.inl ⟨‹_›, (Option.some.inj h).symm⟩))
      · split at h
        · exact .inr (.inr (.inr ⟨‹_›, (Option.some.inj h).symm⟩))
        · cases h

theorem Token.ofMark?_symbol (before : Option Token) (o : BinOp) :
    ofMark? before o.symbol =
      some (if o = .sub ∧ startsOperand before = true then .neg else .op o) := by
  simp [ofMark?]

/-- A mark stands for a token that fits where the mark does. -/
theorem Token.fitsAfter_of_ofMark? {before : Option Token} {c : Char} {t : Token}
    (h : ofMark? before c = some t) : t.FitsAfter before := by
  rcases ofMark?_cases h with ⟨o, -, rfl⟩ | ⟨-, rfl⟩ | ⟨-, rfl⟩ | ⟨-, rfl⟩
  · by_cases hneg : o = .sub ∧ startsOperand before = true
    · rw [if_pos hneg]
      exact hneg.2
    · rw [if_neg hneg]
      cases o with
      | sub => simpa [FitsAfter] using hneg
      | _ => trivial
  · trivial
  · trivial
  · trivial

theorem map_cons_eq_ok {ε α : Type} {x : Except ε (List α)} {a : α} {l : List α}
    (h : x.map (a :: ·) = .ok l) : ∃ rest, x = .ok rest ∧ l = a :: rest := by
  cases x with
  | error e => cases h
  | ok rest => exact ⟨rest, rfl, (Except.ok.inj h).symm⟩

/-- What a lexeme after the token `before` is read as. -/
inductive Lexeme.ReadsAs (before : Option Token) : Lexeme → Token → Prop
  /-- A word names a function. -/
  | word {letters : List Char} {f : Func} :
    Func.ofName? letters = some f → ReadsAs before (.word letters) (.func f)
  /-- Figures are a number. -/
  | figures (text : List Char) : ReadsAs before (.figures text) (.number text)
  /-- A mark stands for a token. -/
  | mark {c : Char} {t : Token} :
    Token.ofMark? before c = some t → ReadsAs before (.mark c) t

/-- The lexemes after the token `before` are read as the tokens. -/
inductive Reads : Option Token → List Lexeme → List Token → Prop
  /-- Nothing is left. -/
  | nil (before : Option Token) : Reads before [] []
  /-- A blank is skipped. -/
  | blank {before : Option Token} {c : Char} {ls : List Lexeme} {ts : List Token} :
    Text.isBlank c = true → Reads before ls ts → Reads before (.mark c :: ls) ts
  /-- Any other lexeme is read as a token. -/
  | cons {before : Option Token} {l : Lexeme} {t : Token} {ls : List Lexeme} {ts : List Token} :
    l.ReadsAs before t → Reads (some t) ls ts → Reads before (l :: ls) (t :: ts)

theorem reads_of_tokensOf {before : Option Token} {position : Nat} {ls : List Lexeme}
    {ts : List Token} (h : tokensOf before position ls = .ok ts) : Reads before ls ts := by
  induction ls generalizing before position ts with
  | nil =>
    obtain rfl := Except.ok.inj h
    exact .nil before
  | cons l ls ih =>
    cases l with
    | word letters =>
      simp only [tokensOf] at h
      split at h
      · obtain ⟨rest, hrest, rfl⟩ := map_cons_eq_ok h
        exact .cons (.word ‹_›) (ih hrest)
      · cases h
    | figures text =>
      obtain ⟨rest, hrest, rfl⟩ := map_cons_eq_ok h
      exact .cons (.figures text) (ih hrest)
    | mark c =>
      simp only [tokensOf] at h
      split at h
      · exact .blank ‹_› (ih h)
      · split at h
        · obtain ⟨rest, hrest, rfl⟩ := map_cons_eq_ok h
          exact .cons (.mark ‹_›) (ih hrest)
        · cases h

/-- No blank stands for a token. -/
theorem Token.isBlank_of_ofMark? {before : Option Token} {c : Char} {t : Token}
    (h : ofMark? before c = some t) : Text.isBlank c = false := by
  rcases ofMark?_cases h with ⟨o, rfl, -⟩ | ⟨rfl, -⟩ | ⟨rfl, -⟩ | ⟨rfl, -⟩
  · cases o <;> decide
  · decide
  · decide
  · decide

theorem Reads.tokensOf_eq {before : Option Token} {ls : List Lexeme} {ts : List Token}
    (h : Reads before ls ts) (position : Nat) : tokensOf before position ls = .ok ts := by
  induction h generalizing position with
  | nil => rfl
  | blank hc _ ih => simp [tokensOf, hc, ih]
  | cons hl _ ih =>
    cases hl with
    | word hname => simp [tokensOf, hname, ih, Except.map]
    | figures text => simp [tokensOf, ih, Except.map]
    | mark ht => simp [tokensOf, Token.isBlank_of_ofMark? ht, ht, ih, Except.map]

/-- **The lexer succeeds exactly with what its lexemes are read as.**  Where they stand matters for
its errors only. -/
theorem tokensOf_eq_ok_iff {before : Option Token} {position : Nat} {ls : List Lexeme}
    {ts : List Token} : tokensOf before position ls = .ok ts ↔ Reads before ls ts :=
  ⟨reads_of_tokensOf, fun h => h.tokensOf_eq position⟩

theorem reads_figures_cons_iff {before : Option Token} {text : List Char} {ls : List Lexeme}
    {ts : List Token} :
    Reads before (.figures text :: ls) ts ↔
      ∃ us, Reads (some (.number text)) ls us ∧ ts = .number text :: us := by
  constructor
  · intro h
    cases h with
    | cons hl hrest =>
      cases hl
      exact ⟨_, hrest, rfl⟩
  · rintro ⟨us, hrest, rfl⟩
    exact .cons (.figures text) hrest

theorem reads_mark_cons_iff {before : Option Token} {c : Char} {t : Token} {ls : List Lexeme}
    {ts : List Token} (ht : Token.ofMark? before c = some t) :
    Reads before (.mark c :: ls) ts ↔ ∃ us, Reads (some t) ls us ∧ ts = t :: us := by
  constructor
  · intro h
    cases h with
    | blank hc =>
      rw [Token.isBlank_of_ofMark? ht] at hc
      cases hc
    | cons hl hrest =>
      cases hl with
      | mark ht' =>
        obtain rfl := Option.some.inj (ht.symm.trans ht')
        exact ⟨_, hrest, rfl⟩
  · rintro ⟨us, hrest, rfl⟩
    exact .cons (.mark ht) hrest

/-- Only blanks are read as nothing. -/
theorem Reads.blank_of_mem {before : Option Token} {ls : List Lexeme} (h : Reads before ls [])
    {l : Lexeme} (hl : l ∈ ls) : ∃ c, l = .mark c ∧ Text.isBlank c = true := by
  generalize hts : ([] : List Token) = ts at h
  induction h with
  | nil => cases hl
  | blank hc _ ih =>
    rcases List.mem_cons.1 hl with rfl | hl
    · exact ⟨_, rfl, hc⟩
    · exact ih hl hts
  | cons => cases hts

/-- Figures are read as a number. -/
theorem Reads.number_mem {before : Option Token} {ls : List Lexeme} {ts : List Token}
    (h : Reads before ls ts) {text : List Char} (hl : .figures text ∈ ls) : .number text ∈ ts := by
  induction h with
  | nil => cases hl
  | blank _ _ ih =>
    rcases List.mem_cons.1 hl with hblank | hl
    · cases hblank
    · exact ih hl
  | cons hread _ ih =>
    rcases List.mem_cons.1 hl with rfl | hl
    · cases hread
      exact List.mem_cons_self
    · exact List.mem_cons_of_mem _ (ih hl)

/-- Without blanks, the first token is read from the first lexeme. -/
theorem Reads.exists_cons {before : Option Token} {ls : List Lexeme} {t : Token} {ts : List Token}
    (h : Reads before ls (t :: ts)) (hblank : ∀ c, .mark c ∈ ls → Text.isBlank c = false) :
    ∃ l rest, ls = l :: rest ∧ l.ReadsAs before t ∧ Reads (some t) rest ts := by
  cases h with
  | @blank _ c _ _ hc =>
    rw [hblank c List.mem_cons_self] at hc
    cases hc
  | cons hl hrest => exact ⟨_, _, rfl, hl, hrest⟩

/-- Without blanks, tokens that stand side by side are read from lexemes that do. -/
theorem Reads.exists_adjacent {before : Option Token} {ls : List Lexeme} {us vs : List Token}
    {t u : Token} (h : Reads before ls (us ++ t :: u :: vs))
    (hblank : ∀ c, .mark c ∈ ls → Text.isBlank c = false) :
    ∃ ks l m ns before', ls = ks ++ l :: m :: ns ∧ l.ReadsAs before' t ∧ m.ReadsAs (some t) u := by
  induction us generalizing before ls with
  | nil =>
    obtain ⟨l, rest, rfl, hl, hrest⟩ := h.exists_cons hblank
    obtain ⟨m, ns, rfl, hm, -⟩ := hrest.exists_cons fun c hc => hblank c (List.mem_cons_of_mem l hc)
    exact ⟨[], l, m, ns, before, rfl, hl, hm⟩
  | cons w us ih =>
    obtain ⟨k, rest, rfl, -, hrest⟩ := h.exists_cons hblank
    obtain ⟨ks, l, m, ns, before', rfl, hreads⟩ :=
      ih hrest fun c hc => hblank c (List.mem_cons_of_mem k hc)
    exact ⟨k :: ks, l, m, ns, before', rfl, hreads⟩

/-- Only a comma is read as one. -/
theorem Reads.mark_mem_of_comma {before : Option Token} {ls : List Lexeme} {ts : List Token}
    (h : Reads before ls ts) (hcomma : .comma ∈ ts) : .mark ',' ∈ ls := by
  induction h with
  | nil => cases hcomma
  | blank _ _ ih => exact List.mem_cons_of_mem _ (ih hcomma)
  | cons hl _ ih =>
    rcases List.mem_cons.1 hcomma with rfl | hcomma
    · cases hl with
      | mark ht =>
        rcases Token.ofMark?_cases ht with ⟨o, -, ho⟩ | ⟨-, ht⟩ | ⟨-, ht⟩ | ⟨rfl, -⟩
        · split at ho <;> cases ho
        · cases ht
        · cases ht
        · exact List.mem_cons_self
    · exact List.mem_cons_of_mem _ (ih hcomma)

/-- A mark stands for a token whatever comes before it, or never. -/
theorem Token.ofMark?_eq_none_iff {before : Option Token} {c : Char} :
    ofMark? before c = none ↔ (∀ o : BinOp, c ≠ o.symbol) ∧ c ≠ '(' ∧ c ≠ ')' ∧ c ≠ ',' := by
  constructor
  · intro h
    refine ⟨?_, ?_, ?_, ?_⟩
    · rintro o rfl
      rw [ofMark?_symbol] at h
      cases h
    all_goals
      rintro rfl
      cases h
  · rintro ⟨hop, hlparen, hrparen, hcomma⟩
    cases h : ofMark? before c with
    | none => rfl
    | some t =>
      rcases ofMark?_cases h with ⟨o, rfl, -⟩ | ⟨rfl, -⟩ | ⟨rfl, -⟩ | ⟨rfl, -⟩
      · exact absurd rfl (hop o)
      · exact absurd rfl hlparen
      · exact absurd rfl hrparen
      · exact absurd rfl hcomma

/-- What a lexeme that starts at `position` is refused for. -/
inductive Lexeme.OffendsAt (position : Nat) : Lexeme → LexError → Prop
  /-- A word names no function. -/
  | word {letters : List Char} :
    Func.ofName? letters = none → OffendsAt position (.word letters) (.unknownWord letters position)
  /-- A mark is no blank and stands for no token. -/
  | mark {c : Char} :
    Text.isBlank c = false → (∀ before, Token.ofMark? before c = none) →
      OffendsAt position (.mark c) (.unexpected c position)

theorem map_cons_eq_error {ε α : Type} {x : Except ε (List α)} {a : α} {e : ε}
    (h : x.map (a :: ·) = .error e) : x = .error e := by
  cases x with
  | error e' => exact h
  | ok rest => cases h

/-- **The lexer stops at a lexeme that it refuses, after it has read those before.** -/
theorem exists_offendsAt_of_tokensOf {before : Option Token} {position : Nat} {ls : List Lexeme}
    {error : LexError} (h : tokensOf before position ls = .error error) :
    ∃ ks l ms us, ls = ks ++ l :: ms ∧ Reads before ks us ∧
      l.OffendsAt (position + (ks.flatMap Lexeme.text).length) error := by
  induction ls generalizing before position with
  | nil => cases h
  | cons l ls ih =>
    -- a lexeme that is read moves the position by its length
    have htail {before' : Option Token}
        (hread : ∀ {ks us}, Reads before' ks us → ∃ us', Reads before (l :: ks) us')
        (hrest : tokensOf before' (position + l.text.length) ls = .error error) :
        ∃ ks k ms us, l :: ls = ks ++ k :: ms ∧ Reads before ks us ∧
          k.OffendsAt (position + (ks.flatMap Lexeme.text).length) error := by
      obtain ⟨ks, k, ms, us, rfl, hks, hk⟩ := ih hrest
      obtain ⟨us', hus'⟩ := hread hks
      rw [Nat.add_assoc, ← List.length_append, ← List.flatMap_cons] at hk
      exact ⟨l :: ks, k, ms, us', rfl, hus', hk⟩
    cases l with
    | word letters =>
      simp only [tokensOf] at h
      split at h
      · exact htail (fun hks => ⟨_, .cons (.word ‹_›) hks⟩) (map_cons_eq_error h)
      · obtain rfl := Except.error.inj h
        exact ⟨[], _, ls, [], rfl, .nil before, .word ‹_›⟩
    | figures text =>
      exact htail (fun hks => ⟨_, .cons (.figures text) hks⟩) (map_cons_eq_error h)
    | mark c =>
      simp only [tokensOf] at h
      split at h
      · exact htail (fun hks => ⟨_, .blank ‹_› hks⟩) h
      · rename_i hblank
        split at h
        · exact htail (fun hks => ⟨_, .cons (.mark ‹_›) hks⟩) (map_cons_eq_error h)
        · rename_i hmark
          obtain rfl := Except.error.inj h
          refine ⟨[], _, ls, [], rfl, .nil before, .mark (Bool.eq_false_iff.2 hblank) fun _ => ?_⟩
          exact Token.ofMark?_eq_none_iff.2 (Token.ofMark?_eq_none_iff.1 hmark)

/-- What is refused is not read, whatever comes before it. -/
theorem Lexeme.OffendsAt.not_reads {position : Nat} {l : Lexeme} {error : LexError}
    (h : l.OffendsAt position error) (before : Option Token) (ms : List Lexeme)
    (ts : List Token) : ¬ Reads before (l :: ms) ts := by
  intro hreads
  cases h with
  | word hname =>
    cases hreads with
    | cons hl =>
      cases hl with
      | word hname' =>
        rw [hname] at hname'
        cases hname'
  | mark hblank hmark =>
    cases hreads with
    | blank hblank' =>
      rw [hblank] at hblank'
      cases hblank'
    | cons hl =>
      cases hl with
      | mark ht =>
        rw [hmark] at ht
        cases ht

theorem Lexeme.ReadsAs.fitsAfter {before : Option Token} {l : Lexeme} {t : Token}
    (h : l.ReadsAs before t) (hl : l.Proper) : t.FitsAfter before := by
  cases h with
  | word => trivial
  | figures text => exact hl
  | mark ht => exact Token.fitsAfter_of_ofMark? ht

theorem Reads.lexical {before : Option Token} {ls : List Lexeme} {ts : List Token}
    (h : Reads before ls ts) (hls : ∀ l ∈ ls, l.Proper) : Lexical before ts := by
  induction h with
  | nil => trivial
  | blank _ _ ih => exact ih (List.forall_mem_cons.1 hls).2
  | cons hl _ ih =>
    obtain ⟨hproper, hls⟩ := List.forall_mem_cons.1 hls
    exact ⟨hl.fitsAfter hproper, ih hls⟩

/-- Each token of a text fits after the one before it. -/
theorem lexical_of_tokenize {text : List Char} {ts : List Token} (h : tokenize text = .ok ts) :
    Lexical none ts :=
  (reads_of_tokensOf h).lexical fun _ => proper_of_mem_lexemes

/-- A number among the tokens of a text is a run of digits and points. -/
theorem Lexical.figures_of_mem {before : Option Token} {ts : List Token} (h : Lexical before ts)
    {text : List Char} (ht : .number text ∈ ts) :
    text ≠ [] ∧ ∀ c ∈ text, isFigure c = true := by
  induction ts generalizing before with
  | nil => cases ht
  | cons t ts ih =>
    rcases List.mem_cons.1 ht with rfl | ht
    · exact h.1
    · exact ih h.2 ht

/-- A minus sign in front of an operand stands first or after a token that an operand follows. -/
theorem Lexical.startsOperand_of_neg {before : Option Token} {ts us : List Token} {t : Token}
    (h : Lexical before (ts ++ t :: .neg :: us)) : startsOperand (some t) = true := by
  induction ts generalizing before with
  | nil => exact h.2.1
  | cons _ ts ih => exact ih h.2

/-- No minus sign right after a function stands in front of an operand. -/
theorem Lexical.ne_func_neg {before : Option Token} {ts : List Token} (h : Lexical before ts)
    (f : Func) (us vs : List Token) : ts ≠ us ++ .func f :: .neg :: vs := by
  rintro rfl
  have hstart := h.startsOperand_of_neg
  cases hstart

end PocketCalc
