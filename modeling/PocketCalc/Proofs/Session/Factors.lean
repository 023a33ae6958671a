import PocketCalc.Proofs.Rpn.Gaps
import PocketCalc.Proofs.Session.Constants
import PocketCalc.Proofs.Session.Diagnostics
import PocketCalc.Proofs.Session.Errors

/-!
# Multiplication signs that are left out

A multiplication sign is put in after a digit, a closing parenthesis or a constant.  In plain
spelling, where constants are figures, no group, word or number then follows such an end of a value
(`isChain_factored_normalize`).  What is read from the text is an operand followed by an operator or
a closing parenthesis (`isChain_adjoins_of_tokenize`), with one exception: a point ends no value by
these rules, but a number can end in one, as in `2.(3)`.

So values are left over only from a text in which a group opens right after a point
(`leavesOver_of_evaluate`).

Main statement: `leftover_of_lastError`.
-/

namespace PocketCalc

open Lexeme

/-! ### Characters in plain spelling -/

/-- No group and no word opens right after a digit or a closing parenthesis, and no number starts
right after a closing parenthesis. -/
def Factored (a b : Char) : Prop :=
  (a.isDigit = true ∨ a = ')' → b ≠ '(' ∧ isLetter b = false) ∧ (a = ')' → isFigure b = false)

theorem Lexeme.Proper.isChain_factored {l : Lexeme} (h : l.Proper) : l.text.IsChain Factored := by
  cases l with
  | word letters =>
    refine (List.pairwise_of_forall_mem_list fun a ha b _ => ?_).isChain
    have hletter := h.2 a ha
    refine ⟨?_, ?_⟩
    · rintro (hdigit | rfl)
      · rw [(classes_of_isFigure (isFigure_of_isDigit hdigit)).2.1] at hletter
        cases hletter
      · cases hletter
    · rintro rfl
      cases hletter
  | figures text =>
    refine (List.pairwise_of_forall_mem_list fun a ha b hb => ?_).isChain
    obtain ⟨-, hletter, -, hlparen⟩ := classes_of_isFigure (h.2 b hb)
    refine ⟨fun _ => ⟨hlparen, hletter⟩, ?_⟩
    rintro rfl
    cases h.2 ')' ha
  | mark c => exact List.isChain_singleton c

section

variable {text : List Char} (htyped : ∀ c ∈ text, isTypedChar c = true)

include htyped

/-- A digit or closing parenthesis that ends a lexeme in plain spelling stands for the end of a
value. -/
theorem exists_endsValue_of_plain {l : Lexeme} (hl : l ∈ lexemes text) {a : Char}
    (ha : a ∈ l.plain.text.getLast?) (h : a.isDigit = true ∨ a = ')') :
    ∃ a' ∈ l.text.getLast?, endsValue a' = true ∧ (a = ')' → a' = ')') := by
  rcases l.plain_cases with ⟨hconstant, k, hk⟩ | ⟨-, hsame | ⟨c, o, rfl, ho⟩⟩
  · obtain ⟨k', hk'⟩ := exists_symbol_of_isConstant htyped hl hconstant
    refine ⟨k'.symbol, by rw [hk']; rfl, by simp [endsValue, isConstantChar_symbol], ?_⟩
    rintro rfl
    rw [hk] at ha
    cases (proper_figures_numeral k).2 ')' (List.mem_of_getLast? ha)
  · rw [hsame] at ha
    exact ⟨a, ha, by rcases h with h | h <;> simp [endsValue, h], id⟩
  · rw [ho] at ha
    obtain rfl : o.symbol = a := Option.some.inj ha
    exact absurd h (by cases o <;> decide)

/-- A parenthesis or letter that begins a lexeme in plain spelling is typed as it is, and so is a
digit or point unless it begins the number of a constant. -/
theorem exists_head?_of_plain {m : Lexeme} (hm : m ∈ lexemes text) {b : Char}
    (hb : b ∈ m.plain.text.head?) :
    ∃ b' ∈ m.text.head?, (b = '(' ∨ isLetter b = true → b' = b) ∧
      (isFigure b = true → isConstantChar b' = true ∨ b' = b) := by
  rcases m.plain_cases with ⟨hconstant, k, hk⟩ | ⟨-, hsame | ⟨c, o, rfl, ho⟩⟩
  · obtain ⟨k', hk'⟩ := exists_symbol_of_isConstant htyped hm hconstant
    refine ⟨k'.symbol, by rw [hk']; rfl, fun h => ?_, fun _ => .inl (isConstantChar_symbol k')⟩
    rw [hk] at hb
    obtain ⟨-, hletter, -, hlparen⟩ :=
      classes_of_isFigure ((proper_figures_numeral k).2 b (List.mem_of_head? hb))
    rcases h with h | h
    · exact absurd h hlparen
    · rw [hletter] at h
      cases h
  · rw [hsame] at hb
    exact ⟨b, hb, fun _ => rfl, fun _ => .inr rfl⟩
  · rw [ho] at hb
    obtain rfl : o.symbol = b := Option.some.inj hb
    exact ⟨c, rfl, fun h => absurd h (by cases o <;> decide),
      fun h => absurd h (by cases o <;> decide)⟩

/-- Where no multiplication sign is missing, the same holds in plain spelling. -/
theorem factored_of_plain {l m : Lexeme} (hl : l ∈ lexemes text) (hm : m ∈ lexemes text)
    (hmeet : ∀ a ∈ l.text.getLast?, ∀ b ∈ m.text.head?, ¬ Juxtaposed a b) :
    ∀ a ∈ l.plain.text.getLast?, ∀ b ∈ m.plain.text.head?, Factored a b := by
  intro a ha b hb
  obtain ⟨b', hb', hopens, hnumber⟩ := exists_head?_of_plain htyped hm hb
  refine ⟨fun h => ?_, ?_⟩
  · obtain ⟨a', ha', hends, -⟩ := exists_endsValue_of_plain htyped hl ha h
    rw [← Bool.not_eq_true, ← not_or]
    intro h'
    obtain rfl := hopens h'
    exact hmeet a' ha' b' hb' (.inl ⟨hends, h'.imp_right .inr⟩)
  · rintro rfl
    obtain ⟨a', ha', hends, hrparen⟩ := exists_endsValue_of_plain htyped hl ha (.inr rfl)
    obtain rfl := hrparen rfl
    rw [Bool.eq_false_iff]
    intro hfigure
    rcases hnumber hfigure with hconstant | rfl
    · exact hmeet _ ha' b' hb' (.inl ⟨hends, .inr (.inl hconstant)⟩)
    · exact hmeet _ ha' b' hb' (.inr ⟨.inl rfl, isFigure_iff.1 hfigure⟩)

end

/-- **In the plain spelling of a text in good order, no group or word follows a digit or a closing
parenthesis, and no number follows a closing parenthesis.** -/
theorem isChain_factored_normalize {text : List Char} (h : WellFormedBuffer text) :
    (normalize text).IsChain Factored := by
  refine isChain_normalize (fun l hl => (proper_of_mem_lexemes hl).plain.isChain_factored) ?_
  have hmeet := isChain_lexemes_of_isChain h.factors
  rw [List.isChain_iff_forall_rel_of_append_cons_cons] at hmeet ⊢
  intro l m us vs hls
  exact factored_of_plain h.typed (by simp [hls]) (by simp [hls]) (hmeet hls)

/-! ### Tokens -/

namespace Token

/-- The token is a number whose text ends in a point. -/
def endsInPoint : Token → Bool
  | number text => decide (text.getLast? = some '.')
  | _ => false

/-- The token opens a group or is a function. -/
def opensGroup : Token → Bool
  | lparen | func _ => true
  | _ => false

/-- If an operand ends in `t`, it goes on in `u`, unless a group opens in `u` after a point in
`t`. -/
def Adjoins (t u : Token) : Prop :=
  t.endsOperand = true → u.followsOperand = true ∨ t.endsInPoint = true ∧ u.opensGroup = true

end Token

/-- An operand ends in a number or a closing parenthesis. -/
theorem Lexeme.ReadsAs.of_endsOperand {before : Option Token} {l : Lexeme} {t : Token}
    (h : l.ReadsAs before t) (ht : t.endsOperand = true) :
    (∃ text, l = .figures text ∧ t = .number text) ∨ l = .mark ')' ∧ t = .rparen := by
  cases h with
  | word => cases ht
  | figures text => exact .inl ⟨text, rfl, rfl⟩
  | mark hmark =>
    rcases Token.ofMark?_cases hmark with ⟨o, -, rfl⟩ | ⟨-, rfl⟩ | ⟨rfl, rfl⟩ | ⟨-, rfl⟩
    · split at ht <;> cases ht
    · cases ht
    · exact .inr ⟨rfl, rfl⟩
    · cases ht

section

variable {before : Option Token} {l m : Lexeme} {t u : Token} (hl : l.Proper) (hm : m.Proper)
  (hfactored : ∀ a ∈ l.text.getLast?, ∀ b ∈ m.text.head?, Factored a b)
  (hlt : l.ReadsAs before t) (hends : t.endsOperand = true)

include hl hfactored hlt hends

/-- A group or a word opens after an operand only if the operand ends in a point. -/
theorem endsInPoint_of_opens {b : Char} (hb : b ∈ m.text.head?)
    (hopens : b = '(' ∨ isLetter b = true) : t.endsInPoint = true := by
  have hlast (a : Char) (ha : a ∈ l.text.getLast?) : ¬ (a.isDigit = true ∨ a = ')') := by
    intro h
    obtain ⟨hlparen, hletter⟩ := (hfactored a ha b hb).1 h
    rcases hopens with h | h
    · exact hlparen h
    · rw [hletter] at h
      cases h
  rcases hlt.of_endsOperand hends with ⟨text, rfl, rfl⟩ | ⟨rfl, rfl⟩
  · obtain ⟨a, ha, hfigure⟩ := exists_mem_getLast? hl
    rcases isFigure_iff.1 hfigure with hdigit | rfl
    · exact absurd (.inl hdigit) (hlast a ha)
    · exact decide_eq_true ha
  · exact absurd (.inr rfl) (hlast ')' rfl)

include hm

theorem adjoins_of_readsAs (hjoins : ¬ Joins l m) (hmu : m.ReadsAs (some t) u)
    (hcomma : u ≠ .comma) : t.Adjoins u := by
  intro _
  cases hmu with
  | word hname =>
    obtain ⟨b, hb, hletter⟩ := exists_mem_head? hm
    exact .inr ⟨endsInPoint_of_opens hl hfactored hlt hends hb (.inr hletter), rfl⟩
  | figures text =>
    rcases hlt.of_endsOperand hends with ⟨text', rfl, rfl⟩ | ⟨rfl, rfl⟩
    · exact absurd (.inr ⟨rfl, rfl⟩) hjoins
    · obtain ⟨b, hb, hfigure⟩ := exists_mem_head? hm
      rw [(hfactored ')' rfl b hb).2 rfl] at hfigure
      cases hfigure
  | mark hmark =>
    rcases Token.ofMark?_cases hmark with ⟨o, -, rfl⟩ | ⟨rfl, rfl⟩ | ⟨-, rfl⟩ | ⟨-, rfl⟩
    · -- a minus sign right after an operand subtracts
      have hstart : startsOperand (some t) = false := by cases t <;> first | rfl | cases hends
      rw [if_neg (by simp [hstart])]
      exact .inl rfl
    · exact .inr ⟨endsInPoint_of_opens hl hfactored hlt hends rfl (.inl rfl), rfl⟩
    · exact .inl rfl
    · exact absurd rfl hcomma

end

/-- **An operand in a text in good order goes on with an operator or a closing parenthesis, except
that a group may open right after a point.** -/
theorem isChain_adjoins_of_tokenize {text : List Char} (h : WellFormedBuffer text)
    {ts : List Token} (hts : tokenize (normalize text) = .ok ts) : ts.IsChain Token.Adjoins := by
  have hfactored := isChain_lexemes_of_isChain (isChain_factored_normalize h)
  have hjoins := isChain_lexemes (normalize text)
  have hcomma := comma_not_mem_of_tokenize h.typed hts
  rw [List.isChain_iff_forall_rel_of_append_cons_cons] at hfactored hjoins ⊢
  rintro t u us vs rfl hends
  obtain ⟨ks, l, m, ns, before, hls, hlt, hmu⟩ := (reads_of_tokensOf hts).exists_adjacent
    fun c hc => (isPlainMark_of_mem_lexemes h.typed hc).isBlank_eq_false
  have hl : l.Proper := proper_of_mem_lexemes (by rw [hls]; simp)
  have hm : m.Proper := proper_of_mem_lexemes (by rw [hls]; simp)
  refine adjoins_of_readsAs hl hm (hfactored hls) hlt hends (hjoins hls) hmu ?_ hends
  rintro rfl
  exact hcomma (by simp)

/-- The text leaves `n` values over: one more than there are gaps among its tokens, and in a gap a
group opens right after a point. -/
def LeavesOver (text : List Char) (n : Nat) : Prop :=
  ∃ ts, tokenize (normalize text) = .ok ts ∧ n = Rpn.gaps ts + 1 ∧
    ∃ us t u vs, ts = us ++ t :: u :: vs ∧ t.endsInPoint = true ∧ u.opensGroup = true

theorem leavesOver_of_evaluate {text : List Char} {places n : Nat} (h : WellFormedBuffer text)
    (heval : evaluate text places = .error (.evaluation (.leftover n))) : LeavesOver text n := by
  obtain ⟨ts, r, hts, hr, he⟩ := evaluate_eq_evaluation_iff.1 heval
  obtain ⟨hn, hpos⟩ := Rpn.eq_gaps_of_leftover hr he
  obtain ⟨us, t, u, vs, rfl, hends, hfollows⟩ := Rpn.exists_gap hpos
  have hadjoins : t.Adjoins u :=
    List.isChain_iff_forall_rel_of_append_cons_cons.1 (isChain_adjoins_of_tokenize h hts) rfl
  refine ⟨_, hts, hn, us, t, u, vs, rfl, (hadjoins hends).resolve_left ?_⟩
  rw [hfollows]
  decide

namespace Session

/-- **Multiplication signs are left out only after a point.**  Unless the marker is shown, no sign
is missing after a digit, a closing parenthesis or a constant, and each operand goes on with an
operator or a closing parenthesis, except that a group may open right after a point.  Hence, if
evaluating what is shown reports values left over, what is shown has such a place, and the values
are one more than the gaps in it.  An error of this kind that is kept comes from such a text. -/
theorem leftover_of_lastError {settings : Settings} {actions : List Action} {s : Session}
    (hs : ({ settings := settings } : Session).run actions = s) :
    (s.inError = false →
      s.buffer.IsChain (fun a b => ¬ Juxtaposed a b) ∧
      (∀ ts, tokenize (normalize s.buffer) = .ok ts → ts.IsChain Token.Adjoins) ∧
      ∀ n,
        (s.evaluate.lastError = some (.evaluation (.leftover n)) ↔
          PocketCalc.evaluate s.buffer settings.places = .error (.evaluation (.leftover n))) ∧
        (PocketCalc.evaluate s.buffer settings.places = .error (.evaluation (.leftover n)) →
          LeavesOver s.buffer n)) ∧
    ∀ n, s.lastError = some (.evaluation (.leftover n)) →
      ∃ earlier, earlier <+: actions ∧
        (({ settings := settings } : Session).run earlier).inError = false ∧
        PocketCalc.evaluate (({ settings := settings } : Session).run earlier).buffer
          settings.places = .error (.evaluation (.leftover n)) ∧
        LeavesOver (({ settings := settings } : Session).run earlier).buffer n := by
  have hsettings (actions : List Action) :
      (({ settings := settings } : Session).run actions).settings = settings := settings_run _ _
  have horder := inGoodOrder_run settings
  subst hs
  refine ⟨fun hshown => ⟨(horder actions hshown).factors,
    fun ts => isChain_adjoins_of_tokenize (horder actions hshown), fun n => ⟨?_, ?_⟩⟩,
    fun n hlast => ?_⟩
  · rw [lastError_evaluate_eq_some_iff hshown, hsettings]
  · exact leavesOver_of_evaluate (horder actions hshown)
  · rcases exists_evaluate_of_run hlast with hstart | ⟨earlier, hpre, hshown, heval⟩
    · cases hstart
    rw [hsettings] at heval
    exact ⟨earlier, hpre, hshown, heval, leavesOver_of_evaluate (horder earlier hshown) heval⟩

/-- With `2.` typed in front of a group, no multiplication sign is put in. -/
theorem leftover_point_before_group :
    (({} : Session).run [.append ['2'], .append ['.'], .append ['('], .append ['3'],
      .append [')']]).inError = false ∧
    ['2', '.', '(', '3', ')'].IsChain (fun a b => ¬ Juxtaposed a b) ∧
    [Token.number ['2', '.'], .lparen, .number ['3'], .rparen].IsChain Token.Adjoins ∧
    PocketCalc.evaluate ['2', '.', '(', '3', ')'] 10 = .error (.evaluation (.leftover 2)) ∧
    (({} : Session).run [.append ['2'], .append ['.'], .append ['('], .append ['3'],
      .append [')']]).evaluate.lastError = some (.evaluation (.leftover 2)) ∧
    LeavesOver ['2', '.', '(', '3', ')'] 2 ∧
    ∃ earlier, earlier <+: [Action.append ['2'], .append ['.'], .append ['('], .append ['3'],
        .append [')'], .evaluate] ∧
      (({} : Session).run earlier).inError = false ∧
      PocketCalc.evaluate (({} : Session).run earlier).buffer 10 =
        .error (.evaluation (.leftover 2)) ∧
      LeavesOver (({} : Session).run earlier).buffer 2 := by
  have heval : PocketCalc.evaluate ['2', '.', '(', '3', ')'] 10 =
      .error (.evaluation (.leftover 2)) := rfl
  have hrun : ({} : Session).run [.append ['2'], .append ['.'], .append ['('], .append ['3'],
      .append [')']] = { buffer := ['2', '.', '(', '3', ')'] } := rfl
  have hlast : (({} : Session).run [.append ['2'], .append ['.'], .append ['('], .append ['3'],
      .append [')'], .evaluate]).lastError = some (.evaluation (.leftover 2)) := rfl
  obtain ⟨hshown, -⟩ := leftover_of_lastError hrun
  obtain ⟨hchain, htokens, hleft⟩ := hshown rfl
  obtain ⟨hreports, hleaves⟩ := hleft 2
  generalize hall : ({} : Session).run [.append ['2'], .append ['.'], .append ['('],
    .append ['3'], .append [')'], .evaluate] = s at hlast
  obtain ⟨-, hkept⟩ := leftover_of_lastError hall
  refine ⟨rfl, hchain, htokens _ rfl, heval, ?_, hleaves heval, hkept 2 hlast⟩
  rw [hrun]
  exact hreports.2 heval

/-- In `2.(3)` a number stands right in front of a group, and two values are left over. -/
theorem lastError_point_before_group :
    (({} : Session).run [.append ['2'], .append ['.'], .append ['('], .append ['3'],
      .append [')']]).inError = false ∧
    (({} : Session).run [.append ['2'], .append ['.'], .append ['('], .append ['3'],
      .append [')']]).buffer = ['2', '.', '(', '3', ')'] ∧
    tokenize (normalize ['2', '.', '(', '3', ')']) =
      .ok [.number ['2', '.'], .lparen, .number ['3'], .rparen] ∧
    (({} : Session).run [.append ['2'], .append ['.'], .append ['('], .append ['3'],
      .append [')'], .evaluate]).lastError = some (.evaluation (.leftover 2)) :=
  ⟨rfl, rfl, rfl, rfl⟩

end Session

end PocketCalc
