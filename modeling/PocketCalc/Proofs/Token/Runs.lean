import Mathlib.Data.List.Chain
import PocketCalc.Proofs.Key
import PocketCalc.Proofs.Token.Lexical

/-!
# Lexemes of texts put together

Put behind another text, the lexemes of a text stay as they are, except that two words or two runs
of figures that meet become one (`lexemes_append`).  Written without a gap, lexemes are therefore
read back as they were unless two neighbours make one run (`lexemes_flatMap_text`).

Neighbours in the lexemes of a text never do (`isChain_lexemes`), and marks never change.

Main statements: `lexemes_append`, `lexemes_flatMap_text`, `isChain_lexemes`.
-/

namespace PocketCalc

namespace Lexeme

/-- The lexeme is a word. -/
def isWord : Lexeme → Bool
  | word _ => true
  | _ => false

/-- The lexeme consists of digits and points. -/
def isFigures : Lexeme → Bool
  | figures _ => true
  | _ => false

/-- Side by side, the two lexemes make one run. -/
def Joins (l m : Lexeme) : Prop :=
  l.isWord = true ∧ m.isWord = true ∨ l.isFigures = true ∧ m.isFigures = true

/-- Lexemes with a lexeme put in front, which joins the first of them if they make one run. -/
def attach : Lexeme → List Lexeme → List Lexeme
  | word u, word v :: rest => word (u ++ v) :: rest
  | figures u, figures v :: rest => figures (u ++ v) :: rest
  | l, rest => l :: rest

theorem proper_mark_symbol (o : BinOp) : (mark o.symbol).Proper := by
  cases o <;> exact ⟨by decide, by decide⟩

theorem attach_of_not_joins {l : Lexeme} {ls : List Lexeme} (h : ∀ m ∈ ls.head?, ¬ Joins l m) :
    attach l ls = l :: ls := by
  fun_cases attach l ls with
  | case1 u v rest => exact absurd (.inl ⟨rfl, rfl⟩) (h _ rfl)
  | case2 u v rest => exact absurd (.inr ⟨rfl, rfl⟩) (h _ rfl)
  | case3 => rfl

theorem join_eq_attach (c : Char) (ls : List Lexeme) : join c ls = attach (ofChar c) ls := by
  by_cases hl : isLetter c = true
  · have hf : isFigure c = false := by
      rw [Bool.eq_false_iff]
      intro hf
      rw [(classes_of_isFigure hf).2.1] at hl
      cases hl
    fun_cases join c ls <;> simp_all [ofChar, attach]
  · by_cases hf : isFigure c = true
    · fun_cases join c ls <;> simp_all [ofChar, attach]
    · fun_cases join c ls <;> simp_all [ofChar, attach]

/-- Two words in front of lexemes count as one. -/
theorem attach_word_attach (u v : List Char) (ls : List Lexeme) :
    attach (word u) (attach (word v) ls) = attach (word (u ++ v)) ls := by
  cases ls with
  | nil => rfl
  | cons l ls => cases l <;> simp [attach]

theorem attach_figures_attach (u v : List Char) (ls : List Lexeme) :
    attach (figures u) (attach (figures v) ls) = attach (figures (u ++ v)) ls := by
  cases ls with
  | nil => rfl
  | cons l ls => cases l <;> simp [attach]

theorem foldr_attach_attach (l : Lexeme) (ls init : List Lexeme) :
    (attach l ls).foldr attach init = attach l (ls.foldr attach init) := by
  fun_cases attach l ls with
  | case1 u v rest => exact (attach_word_attach u v _).symm
  | case2 u v rest => exact (attach_figures_attach u v _).symm
  | case3 => rfl

/-- The first lexeme keeps its kind. -/
theorem exists_head?_attach (l : Lexeme) (ls : List Lexeme) :
    ∃ m, (attach l ls).head? = some m ∧ m.isWord = l.isWord ∧ m.isFigures = l.isFigures := by
  fun_cases attach l ls with
  | case1 | case2 | case3 => exact ⟨_, rfl, rfl, rfl⟩

/-- No mark comes or goes. -/
theorem mark_mem_attach_iff {c : Char} {l : Lexeme} {ls : List Lexeme} :
    mark c ∈ attach l ls ↔ mark c ∈ l :: ls := by
  fun_cases attach l ls <;> simp

theorem mark_mem_foldr_attach_iff {c : Char} {ls : List Lexeme} :
    mark c ∈ ls.foldr attach [] ↔ mark c ∈ ls := by
  induction ls with
  | nil => rfl
  | cons l ls ih => rw [List.foldr_cons, mark_mem_attach_iff, List.mem_cons, ih, List.mem_cons]

end Lexeme

open Lexeme

/-! ### Texts put together -/

/-- **Where two texts meet, at most one lexeme of each joins the other.** -/
theorem lexemes_append (a b : List Char) :
    lexemes (a ++ b) = (lexemes a).foldr attach (lexemes b) := by
  induction a with
  | nil => rfl
  | cons c a ih =>
    rw [List.cons_append, lexemes, lexemes, ih, join_eq_attach, join_eq_attach, foldr_attach_attach]

/-- Letters are a single lexeme. -/
theorem lexemes_of_letters {text : List Char} (hne : text ≠ [])
    (h : ∀ c ∈ text, isLetter c = true) : lexemes text = [.word text] := by
  induction text with
  | nil => exact absurd rfl hne
  | cons c rest ih =>
    have hc := h c List.mem_cons_self
    rw [lexemes]
    cases rest with
    | nil => simp [lexemes, join, ofChar, hc]
    | cons d rest =>
      rw [ih (List.cons_ne_nil _ _) fun a ha => h a (List.mem_cons_of_mem _ ha)]
      exact if_pos hc

/-- Digits and points are a single lexeme. -/
theorem lexemes_of_figures {text : List Char} (hne : text ≠ [])
    (h : ∀ c ∈ text, isFigure c = true) : lexemes text = [.figures text] := by
  induction text with
  | nil => exact absurd rfl hne
  | cons c rest ih =>
    have hc := h c List.mem_cons_self
    rw [lexemes]
    cases rest with
    | nil => simp [lexemes, join, ofChar, classes_of_isFigure hc, hc]
    | cons d rest =>
      rw [ih (List.cons_ne_nil _ _) fun a ha => h a (List.mem_cons_of_mem _ ha)]
      exact if_pos hc

theorem lexemes_text {l : Lexeme} (h : l.Proper) : lexemes l.text = [l] := by
  cases l with
  | word letters => exact lexemes_of_letters h.1 h.2
  | figures text => exact lexemes_of_figures h.1 h.2
  | mark c => simp [lexemes, join, ofChar, h.1, h.2]

/-- **Lexemes written without a gap are read back as they were, except for neighbours that make one
run.** -/
theorem lexemes_flatMap_text {ls : List Lexeme} (h : ∀ l ∈ ls, l.Proper) :
    lexemes (ls.flatMap text) = ls.foldr attach [] := by
  induction ls with
  | nil => rfl
  | cons l ls ih =>
    obtain ⟨hl, hls⟩ := List.forall_mem_cons.1 h
    rw [List.flatMap_cons, lexemes_append, lexemes_text hl, ih hls]
    rfl

/-- Lexemes of which no two neighbours make one run stay as they are. -/
theorem foldr_attach_eq_append {ls init : List Lexeme}
    (h : (ls ++ init).IsChain fun l m => ¬ Joins l m) : ls.foldr attach init = ls ++ init := by
  induction ls with
  | nil => rfl
  | cons l ls ih =>
    rw [List.cons_append] at h ⊢
    obtain ⟨hhead, htail⟩ := List.isChain_cons.1 h
    rw [List.foldr_cons, ih htail, attach_of_not_joins hhead]

theorem foldr_attach_of_isChain {ls : List Lexeme} (h : ls.IsChain fun l m => ¬ Joins l m) :
    ls.foldr attach [] = ls := by
  rw [← List.append_nil ls] at h
  rw [foldr_attach_eq_append h, List.append_nil]

/-! ### Neighbours -/

theorem isChain_attach {l : Lexeme} {ls : List Lexeme} (h : ls.IsChain fun l m => ¬ Joins l m) :
    (attach l ls).IsChain fun l m => ¬ Joins l m := by
  fun_cases attach l ls with
  | case1 u v rest => exact List.isChain_cons.2 (List.isChain_cons.1 h)
  | case2 u v rest => exact List.isChain_cons.2 (List.isChain_cons.1 h)
  | case3 _ _ hword hfigures =>
    refine List.isChain_cons.2 ⟨fun m hm hjoins => ?_, h⟩
    obtain ⟨rest, rfl⟩ := List.head?_eq_some_iff.1 hm
    rcases hjoins with ⟨hl, hm⟩ | ⟨hl, hm⟩
    · cases l <;> cases hl
      cases m <;> cases hm
      exact hword _ _ _ rfl rfl
    · cases l <;> cases hl
      cases m <;> cases hm
      exact hfigures _ _ _ rfl rfl

/-- **Neighbours in the lexemes of a text do not make one run.** -/
theorem isChain_lexemes (text : List Char) : (lexemes text).IsChain fun l m => ¬ Joins l m := by
  induction text with
  | nil => exact .nil
  | cons c rest ih =>
    rw [lexemes, join_eq_attach]
    exact isChain_attach ih

theorem lexemes_mark_cons {c : Char} (hc : (mark c).Proper) (b : List Char) :
    lexemes (c :: b) = mark c :: lexemes b := by
  have hmark : ofChar c = mark c := by simp [ofChar, hc.1, hc.2]
  rw [lexemes, join_eq_attach, hmark]
  refine attach_of_not_joins fun m _ hjoins => ?_
  rcases hjoins with ⟨h, -⟩ | ⟨h, -⟩ <;> cases h

/-- **A mark keeps the texts on its two sides apart.** -/
theorem lexemes_append_mark {c : Char} (hc : (mark c).Proper) (a b : List Char) :
    lexemes (a ++ c :: b) = lexemes a ++ mark c :: lexemes b := by
  rw [lexemes_append, lexemes_mark_cons hc]
  refine foldr_attach_eq_append ((isChain_lexemes a).append ?_ ?_)
  · rw [← lexemes_mark_cons hc]
    exact isChain_lexemes (c :: b)
  · intro l _ m hm hjoins
    obtain rfl : mark c = m := Option.some.inj hm
    rcases hjoins with ⟨-, h⟩ | ⟨-, h⟩ <;> cases h

theorem Lexeme.Proper.text_ne_nil {l : Lexeme} (h : l.Proper) : l.text ≠ [] := by
  cases l with
  | word letters => exact h.1
  | figures text => exact h.1
  | mark c => exact List.cons_ne_nil _ _

theorem getLast?_text_of_getLast? {a : List Char} {l : Lexeme} (h : l ∈ (lexemes a).getLast?) :
    l.text.getLast? = a.getLast? := by
  obtain ⟨init, hinit⟩ := List.getLast?_eq_some_iff.1 h
  have hl := (proper_of_mem_lexemes (List.mem_of_getLast? h)).text_ne_nil
  rw [← flatMap_text_lexemes a, hinit, List.flatMap_append, List.flatMap_singleton,
    List.getLast?_append_of_ne_nil _ hl]

theorem head?_text_of_head? {a : List Char} {l : Lexeme} (h : l ∈ (lexemes a).head?) :
    l.text.head? = a.head? := by
  obtain ⟨rest, hrest⟩ := List.head?_eq_some_iff.1 h
  have hl := (proper_of_mem_lexemes (List.mem_of_head? h)).text_ne_nil
  rw [← flatMap_text_lexemes a, hrest, List.flatMap_cons, List.head?_append_of_ne_nil _ hl]

/-- The characters of a lexeme are of its kind. -/
theorem Lexeme.Proper.classes_of_mem {l : Lexeme} {c : Char} (h : l.Proper) (hc : c ∈ l.text) :
    isLetter c = l.isWord ∧ isFigure c = l.isFigures := by
  cases l with
  | word letters =>
    have hletter := h.2 c hc
    refine ⟨hletter, Bool.eq_false_iff.2 fun hfigure => ?_⟩
    rw [(classes_of_isFigure hfigure).2.1] at hletter
    cases hletter
  | figures text =>
    have hfigure := h.2 c hc
    exact ⟨(classes_of_isFigure hfigure).2.1, hfigure⟩
  | mark c' =>
    obtain rfl := List.mem_singleton.1 hc
    exact h

theorem exists_mem_text_of_getLast? {a : List Char} {l : Lexeme} (h : l ∈ (lexemes a).getLast?) :
    l.Proper ∧ ∃ c ∈ a.getLast?, c ∈ l.text := by
  have hproper := proper_of_mem_lexemes (List.mem_of_getLast? h)
  refine ⟨hproper, l.text.getLast hproper.text_ne_nil, ?_, List.getLast_mem _⟩
  rw [← getLast?_text_of_getLast? h]
  exact List.getLast?_eq_some_getLast hproper.text_ne_nil

theorem exists_mem_text_of_head? {a : List Char} {l : Lexeme} (h : l ∈ (lexemes a).head?) :
    l.Proper ∧ ∃ c ∈ a.head?, c ∈ l.text := by
  have hproper := proper_of_mem_lexemes (List.mem_of_head? h)
  refine ⟨hproper, l.text.head hproper.text_ne_nil, ?_, List.head_mem _⟩
  rw [← head?_text_of_head? h]
  exact List.head?_eq_some_head hproper.text_ne_nil

/-- What holds of neighbouring characters holds where neighbouring lexemes meet. -/
theorem isChain_lexemes_of_isChain {R : Char → Char → Prop} {text : List Char}
    (h : text.IsChain R) :
    (lexemes text).IsChain fun l m => ∀ a ∈ l.text.getLast?, ∀ b ∈ m.text.head?, R a b := by
  have hne : [] ∉ (lexemes text).map Lexeme.text := by
    intro hmem
    obtain ⟨l, hl, hnil⟩ := List.mem_map.1 hmem
    exact (proper_of_mem_lexemes hl).text_ne_nil hnil
  rw [← flatMap_text_lexemes text, List.flatMap_def, List.isChain_flatten hne,
    List.isChain_map] at h
  exact h.2

theorem exists_head?_foldr_attach {ls init : List Lexeme} {m : Lexeme}
    (h : m ∈ (ls.foldr attach init).head?) :
    ∃ n ∈ (ls ++ init).head?, m.isWord = n.isWord ∧ m.isFigures = n.isFigures := by
  cases ls with
  | nil => exact ⟨m, h, rfl, rfl⟩
  | cons l ls =>
    obtain ⟨n, hn, hkind⟩ := exists_head?_attach l (ls.foldr attach init)
    obtain rfl : n = m := Option.some.inj (hn.symm.trans h)
    exact ⟨l, rfl, hkind⟩

/-! ### Figures -/

/-- Figures are not lost when something is put in front of them. -/
theorem exists_figures_mem_attach {l : Lexeme} {ls : List Lexeme} {w : List Char}
    (h : figures w ∈ ls) : ∃ w', figures w' ∈ attach l ls ∧ w <:+: w' := by
  fun_cases attach l ls with
  | case1 u v rest =>
    rcases List.mem_cons.1 h with hword | h
    · cases hword
    · exact ⟨w, List.mem_cons_of_mem _ h, List.infix_refl w⟩
  | case2 u v rest =>
    rcases List.mem_cons.1 h with hfigures | h
    · cases hfigures
      exact ⟨u ++ w, List.mem_cons_self, (List.suffix_append u w).isInfix⟩
    · exact ⟨w, List.mem_cons_of_mem _ h, List.infix_refl w⟩
  | case3 => exact ⟨w, List.mem_cons_of_mem _ h, List.infix_refl w⟩

theorem exists_figures_mem_foldr_attach {ls init : List Lexeme} {w : List Char}
    (h : figures w ∈ init) : ∃ w', figures w' ∈ ls.foldr attach init ∧ w <:+: w' := by
  induction ls with
  | nil => exact ⟨w, h, List.infix_refl w⟩
  | cons l ls ih =>
    obtain ⟨v, hv, hwv⟩ := ih
    obtain ⟨w', hw', hvw'⟩ := exists_figures_mem_attach hv
    exact ⟨w', hw', hwv.trans hvw'⟩

theorem exists_figures_attach (u : List Char) (ls : List Lexeme) :
    ∃ w, figures w ∈ attach (figures u) ls ∧ u <+: w := by
  cases ls with
  | nil => exact ⟨u, List.mem_cons_self, List.prefix_refl u⟩
  | cons l ls =>
    cases l with
    | figures v => exact ⟨u ++ v, List.mem_cons_self, List.prefix_append u v⟩
    | word v => exact ⟨u, List.mem_cons_self, List.prefix_refl u⟩
    | mark c => exact ⟨u, List.mem_cons_self, List.prefix_refl u⟩

/-- Figures that meet are read as part of the same figures. -/
theorem exists_figures_of_adjacent (us vs : List Lexeme) (u v : List Char) :
    ∃ w, figures w ∈ (us ++ figures u :: figures v :: vs).foldr attach [] ∧ u ++ v <:+: w := by
  obtain ⟨w, hw, hpre⟩ := exists_figures_attach (u ++ v) (vs.foldr attach [])
  rw [← attach_figures_attach] at hw
  obtain ⟨w', hw', hinfix⟩ : ∃ w', figures w' ∈ us.foldr attach _ ∧ w <:+: w' :=
    exists_figures_mem_foldr_attach hw
  rw [List.foldr_append]
  exact ⟨w', hw', hpre.isInfix.trans hinfix⟩

/-! ### Words -/

/-- The word that a lexeme is, if it is one. -/
def Lexeme.word? : Lexeme → Option (List Char)
  | word letters => some letters
  | _ => none

/-- The words of a text. -/
def words (text : List Char) : List (List Char) := (lexemes text).filterMap word?

section

variable {α : Type} {f : Lexeme → List α}
  (hf : ∀ u v, f (figures (u ++ v)) = f (figures u) ++ f (figures v))

include hf

theorem flatMap_attach {l : Lexeme} {ls : List Lexeme}
    (h : ∀ m ∈ ls.head?, ¬ (l.isWord = true ∧ m.isWord = true)) :
    (attach l ls).flatMap f = f l ++ ls.flatMap f := by
  fun_cases attach l ls with
  | case1 u v rest => exact absurd ⟨rfl, rfl⟩ (h _ rfl)
  | case2 u v rest => rw [List.flatMap_cons, hf, List.append_assoc, List.flatMap_cons]
  | case3 => rfl

/-- What figures give piece by piece is the same for lexemes that meet, if no two words do. -/
theorem flatMap_foldr_attach {ls init : List Lexeme}
    (h : (ls ++ init).IsChain fun l m => ¬ (l.isWord = true ∧ m.isWord = true)) :
    (ls.foldr attach init).flatMap f = (ls ++ init).flatMap f := by
  induction ls with
  | nil => rfl
  | cons l ls ih =>
    obtain ⟨hhead, htail⟩ := List.isChain_cons.1 h
    rw [List.foldr_cons, flatMap_attach hf, ih htail, List.cons_append, List.flatMap_cons]
    intro m hm
    obtain ⟨n, hn, hkind, -⟩ := exists_head?_foldr_attach hm
    rw [hkind]
    exact hhead n hn

end

/-- Words stay as they are if no two of them meet. -/
theorem filterMap_word?_foldr_attach {ls init : List Lexeme}
    (h : (ls ++ init).IsChain fun l m => ¬ (l.isWord = true ∧ m.isWord = true)) :
    (ls.foldr attach init).filterMap word? = (ls ++ init).filterMap word? := by
  rw [List.filterMap_eq_flatMap_toList, List.filterMap_eq_flatMap_toList]
  exact flatMap_foldr_attach (fun _ _ => rfl) h

/-- No two words meet where a letter is missing. -/
theorem isChain_lexemes_append_of_letters {a b : List Char}
    (h : ∀ c ∈ a.getLast?, ∀ d ∈ b.head?, ¬ (isLetter c = true ∧ isLetter d = true)) :
    (lexemes a ++ lexemes b).IsChain fun l m => ¬ (l.isWord = true ∧ m.isWord = true) := by
  have hchain (text : List Char) : (lexemes text).IsChain
      fun l m => ¬ (l.isWord = true ∧ m.isWord = true) :=
    (isChain_lexemes text).imp fun _ _ hnot hwords => hnot (.inl hwords)
  refine (hchain a).append (hchain b) fun l hl m hm ⟨hword, hword'⟩ => ?_
  obtain ⟨hproper, c, hc, hcl⟩ := exists_mem_text_of_getLast? hl
  obtain ⟨hproper', d, hd, hdm⟩ := exists_mem_text_of_head? hm
  rw [← (hproper.classes_of_mem hcl).1] at hword
  rw [← (hproper'.classes_of_mem hdm).1] at hword'
  exact h c hc d hd ⟨hword, hword'⟩

theorem words_append {a b : List Char}
    (h : ∀ c ∈ a.getLast?, ∀ d ∈ b.head?, ¬ (isLetter c = true ∧ isLetter d = true)) :
    words (a ++ b) = words a ++ words b := by
  rw [words, lexemes_append, filterMap_word?_foldr_attach (isChain_lexemes_append_of_letters h),
    List.filterMap_append]
  rfl

/-- Without letters there are no words. -/
theorem words_eq_nil {text : List Char} (h : ∀ c ∈ text, isLetter c = false) : words text = [] := by
  refine List.eq_nil_iff_forall_not_mem.2 fun letters hmem => ?_
  obtain ⟨l, hl, hword⟩ := List.mem_filterMap.1 hmem
  have hproper := proper_of_mem_lexemes hl
  cases l with
  | word u =>
    obtain ⟨c, hc⟩ := List.exists_mem_of_ne_nil u hproper.1
    have hletter := hproper.2 c hc
    rw [h c (mem_of_mem_lexemes hl hc)] at hletter
    cases hletter
  | figures | mark => cases hword

end PocketCalc
