import PocketCalc.Proofs.Session.Diagnostics
import PocketCalc.Proofs.Session.Idempotence
import PocketCalc.Proofs.Token.Constants

/-!
# The constants of a session

In a text in good order a constant stands beside no other constant and beside no digit, since a
multiplication sign would be missing there.  A point may stand right before it, as in `2.π`.  But
then the figures that are read have this point and the one of the constant, and no number has two.

So a text with a value is read with each constant as a number of its own, although plain spelling
puts nothing between a constant and what stands beside it.

Main statements: `constantsApart_of_evaluate`, `separateValue_of_evaluate`.
-/

namespace PocketCalc

open Lexeme

/-! ### Constants in a typed text -/

section

variable {text : List Char} (htyped : ∀ c ∈ text, isTypedChar c = true)

include htyped

/-- The word `pi` cannot be typed. -/
theorem piWord_not_mem_words : Constant.pi.word ∉ words text := by
  intro hmem
  obtain ⟨l, hl, hword⟩ := List.mem_filterMap.1 hmem
  cases l with
  | word letters =>
    obtain rfl := Option.some.inj hword
    have hp := htyped 'p' (mem_of_mem_lexemes hl List.mem_cons_self)
    revert hp
    decide
  | figures | mark => cases hword

/-- A constant is typed with its one character. -/
theorem exists_symbol_of_isConstant {l : Lexeme} (hl : l ∈ lexemes text)
    (h : l.isConstant = true) : ∃ k : Constant, l.text = [k.symbol] := by
  cases l with
  | word letters =>
    obtain ⟨k, hk⟩ := Option.isSome_iff_exists.1 h
    obtain rfl := Constant.word_of_ofWord? hk
    cases k with
    | pi =>
      have hmem : Constant.pi.word ∈ words text := List.mem_filterMap.2 ⟨_, hl, rfl⟩
      exact absurd hmem (piWord_not_mem_words htyped)
    | e => exact ⟨.e, rfl⟩
  | figures => cases h
  | mark c => exact ⟨.pi, by rw [of_decide_eq_true h]; rfl⟩

end

theorem isConstantChar_symbol (k : Constant) : isConstantChar k.symbol = true := by
  simp [isConstantChar]

section

variable {text : List Char} {l m : Lexeme} (htyped : ∀ c ∈ text, isTypedChar c = true)
  (hl : l ∈ lexemes text) (hm : m ∈ lexemes text)
  (hmeet : ∀ a ∈ l.text.getLast?, ∀ b ∈ m.text.head?, ¬ Juxtaposed a b)

include htyped hl hm hmeet

/-- Unless a multiplication sign is missing, no constant and no number follows a constant. -/
theorem not_follows_constant (hconstant : l.isConstant = true) :
    ¬ (m.isConstant = true ∨ m.isFigures = true) := by
  obtain ⟨k, hk⟩ := exists_symbol_of_isConstant htyped hl hconstant
  have hlast : k.symbol ∈ l.text.getLast? := by rw [hk]; rfl
  rintro (hnext | hnext)
  · obtain ⟨k', hk'⟩ := exists_symbol_of_isConstant htyped hm hnext
    refine hmeet _ hlast k'.symbol (by rw [hk']; rfl) (.inl ⟨?_, .inr (.inl ?_)⟩)
    · simp [endsValue, isConstantChar_symbol]
    · exact isConstantChar_symbol k'
  · cases m with
    | figures v =>
      obtain ⟨b, hb, hfigure⟩ := exists_mem_head? (proper_of_mem_lexemes hm)
      exact hmeet _ hlast b hb (.inr ⟨.inr (isConstantChar_symbol k), isFigure_iff.1 hfigure⟩)
    | word | mark => cases hnext

/-- Unless a multiplication sign is missing, a number that a constant follows ends in a point. -/
theorem exists_point_of_follows (hfigures : l.isFigures = true) (hconstant : m.isConstant = true) :
    ∃ u, l = figures (u ++ ['.']) := by
  obtain ⟨k, hk⟩ := exists_symbol_of_isConstant htyped hm hconstant
  cases l with
  | figures u =>
    obtain ⟨a, ha, hfigure⟩ := exists_mem_getLast? (proper_of_mem_lexemes hl)
    rcases isFigure_iff.1 hfigure with hdigit | rfl
    · -- a digit ends a value
      refine absurd ?_ (hmeet a ha k.symbol (by rw [hk]; rfl))
      exact .inl ⟨by simp [endsValue, hdigit], .inr (.inl (isConstantChar_symbol k))⟩
    · obtain ⟨u, rfl⟩ := List.getLast?_eq_some_iff.1 ha
      exact ⟨u, rfl⟩
  | word | mark => cases hfigures

/-- Where a constant stands beside a number or another constant although no multiplication sign is
missing, the two are figures with two points. -/
theorem exists_point_of_fuses (h : Fuses l m) :
    ∃ u, ∃ k : Constant, l.plain = figures (u ++ ['.']) ∧ m.plain = figures k.numeral := by
  rcases h with ⟨hconstant, hnext⟩ | ⟨hfigures, hconstant⟩
  · exact absurd hnext (not_follows_constant htyped hl hm hmeet hconstant)
  · obtain ⟨u, rfl⟩ := exists_point_of_follows htyped hl hm hmeet hfigures hconstant
    rcases m.plain_cases with ⟨-, k, hk⟩ | ⟨hnot, -⟩
    · exact ⟨u, k, rfl, hk⟩
    · rw [hnot] at hconstant
      cases hconstant

end

/-! ### Texts with a value -/

/-- Figures that meet in plain spelling are read as parts of one number. -/
theorem exists_number_of_adjacent {text : List Char} {ts : List Token} {us vs : List Lexeme}
    {l m : Lexeme} {u v : List Char} (hts : tokenize (normalize text) = .ok ts)
    (hls : lexemes text = us ++ l :: m :: vs) (hl : l.plain = figures u)
    (hm : m.plain = figures v) :
    ∃ w, .number w ∈ ts ∧ (∀ c ∈ w, isFigure c = true) ∧ u ++ v <:+: w := by
  obtain ⟨w, hw, hinfix⟩ := exists_figures_of_adjacent (us.map plain) (vs.map plain) u v
  have hnormal : lexemes (normalize text) =
      (us.map plain ++ figures u :: figures v :: vs.map plain).foldr attach [] := by
    rw [lexemes_normalize, hls, List.map_append, List.map_cons, List.map_cons, hl, hm]
  rw [← hnormal] at hw
  exact ⟨w, (reads_of_tokensOf hts).number_mem hw, (proper_of_mem_lexemes hw).2, hinfix⟩

/-- **In a text in good order that has a value, the constants stand apart.** -/
theorem constantsApart_of_evaluate {text : List Char} {places : Nat} {e : Evaluation}
    (h : WellFormedBuffer text) (heval : evaluate text places = .ok e) : ConstantsApart text := by
  obtain ⟨ts, r, hts, hr, hvalue, -⟩ := evaluate_eq_ok_iff.1 heval
  have hmeet := isChain_lexemes_of_isChain h.factors
  rw [ConstantsApart]
  rw [List.isChain_iff_forall_rel_of_append_cons_cons] at hmeet ⊢
  intro l m us vs hls hfuses
  obtain ⟨u, k, hl, hm⟩ :=
    exists_point_of_fuses h.typed (by simp [hls]) (by simp [hls]) (hmeet hls) hfuses
  -- the two are read as parts of one number, which has the points of both
  obtain ⟨w, hw, hfigures, hinfix⟩ := exists_number_of_adjacent hts hls hl hm
  obtain ⟨v, hread⟩ := Rpn.exists_read?_of_eval hr hvalue hw
  have hone := Binary64.Numeral.count_point_le_of_read? hfigures hread
  have htwo : 2 ≤ (u ++ ['.'] ++ k.numeral).count '.' := by
    have hnumeral : k.numeral.count '.' = 1 := by cases k <;> decide
    simp [hnumeral]
  have hle := hinfix.sublist.count_le '.'
  omega

/-- The tokens of the text are those with each constant as a number of its own, and their value is
`v`. -/
def SeparateValue (text : List Char) (v : Float) : Prop :=
  ∃ ts r, tokenize (normalize text) = .ok ts ∧ separateTokens text = .ok ts ∧
    Rpn.ofTokens ts = .ok r ∧ Rpn.eval r = .ok v

theorem separateValue_of_wellFormedBuffer {text : List Char} {places : Nat} {e : Evaluation}
    (h : WellFormedBuffer text) (heval : evaluate text places = .ok e) :
    SeparateValue text e.value := by
  obtain ⟨ts, r, hts, hr, hvalue, -⟩ := evaluate_eq_ok_iff.1 heval
  have hseparate := tokenize_normalize_of_constantsApart (constantsApart_of_evaluate h heval)
  exact ⟨ts, r, hts, hseparate.symm.trans hts, hr, hvalue⟩

namespace Session

/-- **No typed constant is misread.**  Unless the marker is shown, the word `pi` is not in the text
of a session, so that its constants are the signs `π` and the words `e`.  If the text has a value,
each of them is read as a number of its own; hence each result that the session shows is that of
such a reading. -/
theorem separateValue_of_evaluate (settings : Settings) (actions : List Action)
    (hshown : (({ settings := settings } : Session).run actions).inError = false) :
    Constant.pi.word ∉ words (({ settings := settings } : Session).run actions).buffer ∧
    (∀ places e, PocketCalc.evaluate (({ settings := settings } : Session).run actions).buffer
        places = .ok e →
      SeparateValue (({ settings := settings } : Session).run actions).buffer e.value) ∧
    ((({ settings := settings } : Session).run (actions ++ [.evaluate])).inError = false →
      ∃ v, SeparateValue (({ settings := settings } : Session).run actions).buffer v ∧
        readout v settings.places =
          .ok (({ settings := settings } : Session).run (actions ++ [.evaluate])).buffer) := by
  have horder := inGoodOrder_run settings actions hshown
  refine ⟨piWord_not_mem_words horder.typed,
    fun _ _ => separateValue_of_wellFormedBuffer horder, fun hresult => ?_⟩
  rw [run_append] at hresult ⊢
  have hsettings : (({ settings := settings } : Session).run actions).settings = settings :=
    settings_run _ actions
  rcases evaluate_cases (({ settings := settings } : Session).run actions) with
    herror | ⟨e, -, heval⟩
  · exact absurd (hresult.symm.trans herror) (by decide)
  · obtain ⟨-, -, -, -, -, hreadout, -⟩ := evaluate_eq_ok_iff.1 heval
    refine ⟨e.value, separateValue_of_wellFormedBuffer horder heval, ?_⟩
    rw [hsettings] at hreadout
    rw [hreadout]
    exact congrArg (Except.ok ·.buffer) (evaluate_of_eq_ok hshown heval).symm

/-- A multiplication sign comes between `2` and `π`, and `2*π` is shown as its value. -/
theorem separateValue_two_pi :
    (({} : Session).run [.append ['2'], .append ['π']]).inError = false ∧
    (({} : Session).run [.append ['2'], .append ['π']]).buffer = ['2', '*', 'π'] ∧
    Constant.pi.word ∉ words ['2', '*', 'π'] ∧
    (∃ e, PocketCalc.evaluate ['2', '*', 'π'] 10 = .ok e ∧
      SeparateValue ['2', '*', 'π'] e.value) ∧
    (({} : Session).run [.append ['2'], .append ['π'], .evaluate]).inError = false ∧
    ∃ v, SeparateValue ['2', '*', 'π'] v ∧
      readout v 10 = .ok ['6', '.', '2', '8', '3', '1', '8', '5', '3', '0', '7', '2'] := by
  have hbuffer : (({} : Session).run [.append ['2'], .append ['π']]).buffer = ['2', '*', 'π'] := rfl
  obtain ⟨hword, hvalue, hresult⟩ :=
    separateValue_of_evaluate {} [.append ['2'], .append ['π']] rfl
  obtain ⟨e, heval, -⟩ := exists_evaluate_of_text
    (show (PocketCalc.evaluate ['2', '*', 'π'] 10).toOption.map Evaluation.text =
      some ['6', '.', '2', '8', '3', '1', '8', '5', '3', '0', '7', '2'] by decide +kernel)
  have hshown : (({} : Session).run [.append ['2'], .append ['π'], .evaluate]).inError = false := by
    decide +kernel
  have htext : (({} : Session).run [.append ['2'], .append ['π'], .evaluate]).buffer =
      ['6', '.', '2', '8', '3', '1', '8', '5', '3', '0', '7', '2'] := by
    decide +kernel
  obtain ⟨v, hv, hreadout⟩ := hresult hshown
  exact ⟨rfl, hbuffer, hword, ⟨e, heval, hvalue 10 e heval⟩, hshown, v, hv,
    hreadout.trans (congrArg Except.ok htext)⟩

end Session

end PocketCalc
