import PocketCalc.Proofs.Token.Spelling

/-!
# Where a text is cut

Two texts are cut as if each stood alone exactly if no run goes across the place where they meet
(`lexemes_append_eq_iff`).  So a piece of a text is a lexeme of it exactly if it is a maximal run of
letters, a maximal run of digits and points, or a character of another kind
(`lexemes_eq_append_cons_iff`).

Read in parts, lexemes give the tokens of the parts (`reads_append_iff`).

Main statements: `lexemes_append_eq_iff`, `lexemes_eq_append_cons_iff`, `reads_append_iff`.
-/

namespace PocketCalc

/-! ### Runs -/

/-- `run` is a maximal run of characters of the class `p` between the texts `a` and `b`. -/
structure IsRun (p : Char → Bool) (a run b : List Char) : Prop where
  /-- There is a run. -/
  ne_nil : run ≠ []
  /-- Its characters are of the class. -/
  all : ∀ c ∈ run, p c = true
  /-- The character before it is not. -/
  before : ∀ c ∈ a.getLast?, p c = false
  /-- The character behind it is not. -/
  after : ∀ c ∈ b.head?, p c = false

/-- The two characters are part of one run where they stand side by side. -/
def SameRun (c d : Char) : Prop :=
  isLetter c = true ∧ isLetter d = true ∨ isFigure c = true ∧ isFigure d = true

instance (c d : Char) : Decidable (SameRun c d) := inferInstanceAs (Decidable (_ ∨ _))

/-- No run goes across the place where the two texts meet. -/
def Apart (a b : List Char) : Prop := ∀ c ∈ a.getLast?, ∀ d ∈ b.head?, ¬ SameRun c d

namespace Lexeme

variable {l m : Lexeme} {c d : Char}

/-- Lexemes make one run exactly if their characters do. -/
theorem Proper.sameRun_iff (hl : l.Proper) (hm : m.Proper) (hc : c ∈ l.text) (hd : d ∈ m.text) :
    SameRun c d ↔ Joins l m := by
  obtain ⟨hletter, hfigure⟩ := hl.classes_of_mem hc
  obtain ⟨hletter', hfigure'⟩ := hm.classes_of_mem hd
  rw [SameRun, Joins, hletter, hfigure, hletter', hfigure']

end Lexeme

open Lexeme

/-! ### Texts that meet -/

section

variable {a b : List Char} {c : Char}

theorem exists_mem_getLast?_lexemes (h : c ∈ a.getLast?) :
    ∃ l ∈ (lexemes a).getLast?, c ∈ l.text := by
  cases hlast : (lexemes a).getLast? with
  | none =>
    have hnil : a = [] := by
      rw [← flatMap_text_lexemes a, List.getLast?_eq_none_iff.1 hlast]
      rfl
    rw [hnil] at h
    cases h
  | some l =>
    rw [← getLast?_text_of_getLast? hlast] at h
    exact ⟨l, rfl, List.mem_of_getLast? h⟩

theorem exists_mem_head?_lexemes (h : c ∈ b.head?) : ∃ l ∈ (lexemes b).head?, c ∈ l.text := by
  cases hhead : (lexemes b).head? with
  | none =>
    have hnil : b = [] := by
      rw [← flatMap_text_lexemes b, List.head?_eq_none_iff.1 hhead]
      rfl
    rw [hnil] at h
    cases h
  | some l =>
    rw [← head?_text_of_head? hhead] at h
    exact ⟨l, rfl, List.mem_of_head? h⟩

theorem isChain_lexemes_append_iff :
    (lexemes a ++ lexemes b).IsChain (fun l m => ¬ Joins l m) ↔ Apart a b := by
  rw [List.isChain_append]
  constructor
  · rintro ⟨-, -, hmeet⟩ c hc d hd hrun
    obtain ⟨l, hl, hcl⟩ := exists_mem_getLast?_lexemes hc
    obtain ⟨m, hm, hdm⟩ := exists_mem_head?_lexemes hd
    have hproper := proper_of_mem_lexemes (List.mem_of_getLast? hl)
    have hproper' := proper_of_mem_lexemes (List.mem_of_head? hm)
    exact hmeet l hl m hm ((hproper.sameRun_iff hproper' hcl hdm).1 hrun)
  · intro h
    refine ⟨isChain_lexemes a, isChain_lexemes b, fun l hl m hm hjoins => ?_⟩
    obtain ⟨hproper, c, hc, hcl⟩ := exists_mem_text_of_getLast? hl
    obtain ⟨hproper', d, hd, hdm⟩ := exists_mem_text_of_head? hm
    exact h c hc d hd ((hproper.sameRun_iff hproper' hcl hdm).2 hjoins)

/-- **Texts are cut as if each stood alone exactly if no run goes across the place where they
meet.** -/
theorem lexemes_append_eq_iff : lexemes (a ++ b) = lexemes a ++ lexemes b ↔ Apart a b := by
  rw [← isChain_lexemes_append_iff]
  constructor
  · intro h
    rw [← h]
    exact isChain_lexemes (a ++ b)
  · intro h
    rw [lexemes_append]
    exact foldr_attach_eq_append h

end

/-- Where the lexemes of a text are divided, the text is too. -/
theorem lexemes_eq_append_iff {text : List Char} {ks ms : List Lexeme} :
    lexemes text = ks ++ ms ↔
      ∃ a b, text = a ++ b ∧ Apart a b ∧ lexemes a = ks ∧ lexemes b = ms := by
  constructor
  · intro h
    have hchain := isChain_lexemes text
    have hproper (l : Lexeme) (hl : l ∈ ks ++ ms) : l.Proper := proper_of_mem_lexemes (h ▸ hl)
    rw [h] at hchain
    have hks : lexemes (ks.flatMap Lexeme.text) = ks := by
      rw [lexemes_flatMap_text fun l hl => hproper l (List.mem_append_left _ hl)]
      exact foldr_attach_of_isChain hchain.left_of_append
    have hms : lexemes (ms.flatMap Lexeme.text) = ms := by
      rw [lexemes_flatMap_text fun l hl => hproper l (List.mem_append_right _ hl)]
      exact foldr_attach_of_isChain hchain.right_of_append
    refine ⟨_, _, ?_, ?_, hks, hms⟩
    · rw [← List.flatMap_append, ← h, flatMap_text_lexemes]
    · rw [← isChain_lexemes_append_iff, hks, hms]
      exact hchain
  · rintro ⟨a, b, rfl, hapart, rfl, rfl⟩
    exact lexemes_append_eq_iff.2 hapart

/-! ### Pieces of a text -/

/-- Between `a` and `b` the lexeme is a maximal run of its kind, or a character that makes no
run. -/
def Lexeme.StandsBetween (a b : List Char) : Lexeme → Prop
  | word letters => IsRun isLetter a letters b
  | figures text => IsRun isFigure a text b
  | mark c => isLetter c = false ∧ isFigure c = false

section

variable {c d : Char}

theorem sameRun_comm : SameRun c d ↔ SameRun d c := by
  simp only [SameRun, and_comm]

theorem sameRun_iff_isLetter (hd : isLetter d = true) : SameRun c d ↔ isLetter c = true := by
  have hfigure : isFigure d = false := by
    refine Bool.eq_false_iff.2 fun hfigure => ?_
    rw [(classes_of_isFigure hfigure).2.1] at hd
    cases hd
  simp [SameRun, hd, hfigure]

theorem sameRun_iff_isFigure (hd : isFigure d = true) : SameRun c d ↔ isFigure c = true := by
  simp [SameRun, hd, (classes_of_isFigure hd).2.1]

end

section

variable {p : Char → Bool} {a run b : List Char}

/-- A run is maximal exactly if no run goes across one of its ends. -/
theorem isRun_iff_apart (hp : ∀ c d, p d = true → (SameRun c d ↔ p c = true)) :
    IsRun p a run b ↔ (run ≠ [] ∧ ∀ c ∈ run, p c = true) ∧ Apart a run ∧ Apart run b := by
  constructor
  · intro h
    refine ⟨⟨h.ne_nil, h.all⟩, fun c hc d hd hsame => ?_, fun c hc d hd hsame => ?_⟩
    · rw [hp c d (h.all d (List.mem_of_head? hd)), h.before c hc] at hsame
      cases hsame
    · rw [sameRun_comm, hp d c (h.all c (List.mem_of_getLast? hc)), h.after d hd] at hsame
      cases hsame
  · rintro ⟨⟨hne, hall⟩, hbefore, hafter⟩
    refine ⟨hne, hall, fun c hc => ?_, fun d hd => ?_⟩
    · have hapart := hbefore c hc _ (List.head?_eq_some_head hne)
      rwa [hp c _ (hall _ (List.head_mem hne)), Bool.not_eq_true] at hapart
    · have hapart := hafter _ (List.getLast?_eq_some_getLast hne) d hd
      rwa [sameRun_comm, hp d _ (hall _ (List.getLast_mem hne)), Bool.not_eq_true] at hapart

theorem Lexeme.standsBetween_iff {l : Lexeme} :
    l.StandsBetween a b ↔ l.Proper ∧ Apart a l.text ∧ Apart l.text b := by
  cases l with
  | word letters => exact isRun_iff_apart fun _ _ => sameRun_iff_isLetter
  | figures text => exact isRun_iff_apart fun _ _ => sameRun_iff_isFigure
  | mark c =>
    refine iff_self_and.2 fun ⟨hletter, hfigure⟩ => ?_
    have hsame (d : Char) : ¬ SameRun d c := by simp [SameRun, hletter, hfigure]
    refine ⟨fun d _ c' hc' => ?_, fun c' hc' d _ => ?_⟩
    · obtain rfl := Option.some.inj hc'
      exact hsame d
    · obtain rfl := Option.some.inj hc'
      exact mt sameRun_comm.1 (hsame d)

end

theorem apart_append_iff {a b c : List Char} (hb : b ≠ []) : Apart a (b ++ c) ↔ Apart a b := by
  rw [Apart, List.head?_append_of_ne_nil _ hb, Apart]

/-- **The lexemes of a text are its maximal runs and the characters between them.** -/
theorem lexemes_eq_append_cons_iff {text : List Char} {ks ms : List Lexeme} {l : Lexeme} :
    lexemes text = ks ++ l :: ms ↔
      ∃ a b, text = a ++ l.text ++ b ∧ l.StandsBetween a b ∧ lexemes a = ks ∧ lexemes b = ms := by
  constructor
  · intro h
    have hl : l.Proper := proper_of_mem_lexemes (h ▸ List.mem_append_right _ List.mem_cons_self)
    obtain ⟨a, rest, rfl, hbefore, hks, hrest⟩ := lexemes_eq_append_iff.1 h
    have hcut : lexemes rest = [l] ++ ms := hrest
    obtain ⟨t, b, rfl, hafter, ht, hms⟩ := lexemes_eq_append_iff.1 hcut
    obtain rfl : t = l.text := by rw [← flatMap_text_lexemes t, ht, List.flatMap_singleton]
    rw [apart_append_iff hl.text_ne_nil] at hbefore
    exact ⟨a, b, by simp, standsBetween_iff.2 ⟨hl, hbefore, hafter⟩, hks, hms⟩
  · rintro ⟨a, b, rfl, h, rfl, rfl⟩
    obtain ⟨hl, hbefore, hafter⟩ := standsBetween_iff.1 h
    rw [List.append_assoc, lexemes_append_eq_iff.2 ((apart_append_iff hl.text_ne_nil).2 hbefore),
      lexemes_append_eq_iff.2 hafter, lexemes_text hl]
    rfl

/-! ### Tokens read in parts -/

theorem reads_append_iff {before : Option Token} {ks ms : List Lexeme} {ts : List Token} :
    Reads before (ks ++ ms) ts ↔
      ∃ us vs, ts = us ++ vs ∧ Reads before ks us ∧ Reads (us.getLast?.or before) ms vs := by
  constructor
  · intro h
    induction ks generalizing before ts with
    | nil => exact ⟨[], ts, rfl, .nil before, h⟩
    | cons l ks ih =>
      cases h with
      | blank hc hrest =>
        obtain ⟨us, vs, rfl, hus, hvs⟩ := ih hrest
        exact ⟨us, vs, rfl, .blank hc hus, hvs⟩
      | @cons _ _ t _ _ hl hrest =>
        obtain ⟨us, vs, rfl, hus, hvs⟩ := ih hrest
        refine ⟨t :: us, vs, rfl, .cons hl hus, ?_⟩
        rwa [getLast?_cons_or]
  · rintro ⟨us, vs, rfl, hus, hvs⟩
    induction hus with
    | nil => exact hvs
    | blank hc _ ih => exact .blank hc (ih hvs)
    | cons hl _ ih =>
      rw [getLast?_cons_or] at hvs
      exact .cons hl (ih hvs)

/-- Each token is read from a lexeme, and the tokens before it from the lexemes before. -/
theorem Reads.exists_of_append_cons {before : Option Token} {ls : List Lexeme}
    {us vs : List Token} {t : Token} (h : Reads before ls (us ++ t :: vs)) :
    ∃ ks l ms, ls = ks ++ l :: ms ∧ Reads before ks us ∧ l.ReadsAs (us.getLast?.or before) t ∧
      Reads (some t) ms vs := by
  generalize hts : us ++ t :: vs = ts at h
  induction h generalizing us with
  | nil => cases List.append_ne_nil_of_right_ne_nil us (List.cons_ne_nil t vs) hts
  | blank hc _ ih =>
    obtain ⟨ks, l, ms, rfl, hks, hl, hms⟩ := ih hts
    exact ⟨_, l, ms, rfl, .blank hc hks, hl, hms⟩
  | cons hk hrest ih =>
    cases us with
    | nil =>
      obtain ⟨rfl, rfl⟩ := List.cons.inj hts
      exact ⟨[], _, _, rfl, .nil _, hk, hrest⟩
    | cons u us =>
      obtain ⟨rfl, hrest'⟩ := List.cons.inj hts
      obtain ⟨ks, l, ms, rfl, hks, hl, hms⟩ := ih hrest'
      refine ⟨_, l, ms, rfl, .cons hk hks, ?_, hms⟩
      rwa [getLast?_cons_or]

end PocketCalc
