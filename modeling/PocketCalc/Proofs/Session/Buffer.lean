import Mathlib.Data.List.Chain
import PocketCalc.Proofs.Key
import PocketCalc.Proofs.Session.Steps

/-!
# The typed text stays in good order

Unless a marker is shown, the text of a session is never empty and holds only characters that keys
type; no two operators stand side by side, no number has two points, and no multiplication sign is
missing (`WellFormedBuffer`).

A text that is put behind another one keeps all this if the two characters that meet go together and
the two figures that meet have one point at most (`WellFormedBuffer.append`).  Typing a key, taking
back a character and showing a result are all built from this one fact.

Main statement: `wellFormedBuffer_run`.
-/

namespace PocketCalc

/-! ### Texts in good order -/

/-- `c` is a digit, a point, an operator, a parenthesis, a constant or a letter of a function. -/
def isTypedChar (c : Char) : Bool :=
  c.isDigit || c == '.' || isOperatorChar c || c == '(' || c == ')' || isConstantChar c ||
    Func.all.any fun f => decide (c ∈ f.name)

/-- A multiplication sign is missing between two characters that stand side by side: a value ends
and a group, a constant or a word begins, or a group or a constant ends and a number begins. -/
def Juxtaposed (a b : Char) : Prop :=
  endsValue a = true ∧ (b = '(' ∨ isConstantChar b = true ∨ isLetter b = true) ∨
    (a = ')' ∨ isConstantChar a = true) ∧ (b.isDigit = true ∨ b = '.')

/-- A text in good order. -/
structure WellFormedBuffer (buffer : List Char) : Prop where
  /-- There is a text. -/
  ne_nil : buffer ≠ []
  /-- Keys type its characters. -/
  typed : ∀ c ∈ buffer, isTypedChar c = true
  /-- No two operators stand side by side. -/
  operators : buffer.IsChain fun a b => ¬ (isOperatorChar a = true ∧ isOperatorChar b = true)
  /-- A run of digits and points has one point at most. -/
  points : ∀ run, run <:+: buffer → (∀ c ∈ run, isFigure c = true) → run.count '.' ≤ 1
  /-- No multiplication sign is missing. -/
  factors : buffer.IsChain fun a b => ¬ Juxtaposed a b

/-- Two characters can stand side by side. -/
def GoTogether (a b : Char) : Prop :=
  ¬ (isOperatorChar a = true ∧ isOperatorChar b = true) ∧ ¬ Juxtaposed a b

/-! ### Putting texts together -/

theorem prefix_takeWhile {p : Char → Bool} {run text : List Char} (h : run <+: text)
    (hrun : ∀ c ∈ run, p c = true) : run <+: text.takeWhile p := by
  obtain ⟨rest, rfl⟩ := h
  rw [List.takeWhile_append_of_pos hrun]
  exact List.prefix_append _ _

/-- A run of figures at the end of a text is part of the last figures. -/
theorem count_point_le_of_suffix {run buffer : List Char} (h : run <:+ buffer)
    (hrun : ∀ c ∈ run, isFigure c = true) : run.count '.' ≤ (lastFigures buffer).count '.' := by
  have hpre : run.reverse <+: lastFigures buffer :=
    prefix_takeWhile (List.reverse_prefix.2 h) (by simpa using hrun)
  simpa using hpre.count_le '.'

theorem WellFormedBuffer.append {buffer text : List Char} (hb : WellFormedBuffer buffer)
    (ht : WellFormedBuffer text)
    (hmeet : ∀ a ∈ buffer.getLast?, ∀ b ∈ text.head?, GoTogether a b)
    (hpoints : (lastFigures buffer).count '.' + (text.takeWhile isFigure).count '.' ≤ 1) :
    WellFormedBuffer (buffer ++ text) where
  ne_nil := List.append_ne_nil_of_left_ne_nil hb.ne_nil _
  typed c hc := (List.mem_append.1 hc).elim (hb.typed c) (ht.typed c)
  operators := hb.operators.append ht.operators fun a ha b hb => (hmeet a ha b hb).1
  factors := hb.factors.append ht.factors fun a ha b hb => (hmeet a ha b hb).2
  points run hrun hfigures := by
    obtain ⟨before, after, heq⟩ := hrun
    rw [List.append_assoc, List.append_eq_append_iff] at heq
    rcases heq with ⟨head, rfl, heq⟩ | ⟨skipped, rfl, heq⟩
    · rw [List.append_eq_append_iff] at heq
      rcases heq with ⟨rest, rfl, rfl⟩ | ⟨tail, rfl, rfl⟩
      · exact hb.points run ⟨before, rest, by simp⟩ hfigures
      · -- the run goes across the place where the texts meet
        have hhead := count_point_le_of_suffix (List.suffix_append before head)
          fun c hc => hfigures c (List.mem_append_left _ hc)
        have htail : tail.count '.' ≤ ((tail ++ after).takeWhile isFigure).count '.' :=
          (prefix_takeWhile (List.prefix_append _ _)
            fun c hc => hfigures c (List.mem_append_right _ hc)).count_le '.'
        rw [List.count_append]
        omega
    · exact ht.points run ⟨skipped, after, by simpa using heq.symm⟩ hfigures

theorem WellFormedBuffer.of_prefix_ne_nil {buffer text : List Char} (h : WellFormedBuffer buffer)
    (hpre : text <+: buffer) (hne : text ≠ []) : WellFormedBuffer text where
  ne_nil := hne
  typed c hc := h.typed c (hpre.subset hc)
  operators := h.operators.prefix hpre
  points run hrun := h.points run (hrun.trans hpre.isInfix)
  factors := h.factors.prefix hpre

theorem WellFormedBuffer.count_lastFigures_le {buffer : List Char} (h : WellFormedBuffer buffer) :
    (lastFigures buffer).count '.' ≤ 1 := by
  have hpre : lastFigures buffer <+: buffer.reverse := List.takeWhile_prefix _
  have hrun := h.points (lastFigures buffer).reverse
    (by simpa using (List.reverse_prefix.1 (by simpa using hpre)).isInfix)
    fun c hc => List.all_eq_true.1 List.all_takeWhile c (List.mem_reverse.1 hc)
  simpa using hrun

/-! ### The text of a key -/

theorem wellFormedBuffer_singleton {c : Char} (hc : isTypedChar c = true) :
    WellFormedBuffer [c] where
  ne_nil := List.cons_ne_nil _ _
  typed a ha := by rwa [List.mem_singleton.1 ha]
  operators := List.isChain_singleton _
  points run hrun _ := List.count_le_length.trans hrun.length_le
  factors := List.isChain_singleton _

theorem isTypedChar_of_mem_name {f : Func} {c : Char} (h : c ∈ f.name) : isTypedChar c = true := by
  have hf : f ∈ Func.all := by cases f <;> decide
  rw [isTypedChar, Bool.or_eq_true]
  exact .inr (List.any_eq_true.2 ⟨f, hf, decide_eq_true h⟩)

theorem Key.wellFormedBuffer_text (key : Key) : WellFormedBuffer key.text := by
  cases key with
  | digit c h => exact wellFormedBuffer_singleton (by simp [isTypedChar, h])
  | point => exact wellFormedBuffer_singleton (by decide)
  | operator c h => exact wellFormedBuffer_singleton (by simp [isTypedChar, h])
  | lparen => exact wellFormedBuffer_singleton (by decide)
  | rparen => exact wellFormedBuffer_singleton (by decide)
  | constant k => exact wellFormedBuffer_singleton (by cases k <;> decide)
  | func f =>
    have hpoint : '.' ∉ (Key.func f).text := by cases f <;> decide
    refine ⟨by simp [Key.text], fun c hc => ?_, ?_, fun run hrun _ => ?_, ?_⟩
    · rcases List.mem_append.1 hc with hname | hparen
      · exact isTypedChar_of_mem_name hname
      · obtain rfl := List.mem_singleton.1 hparen
        decide
    · cases f <;> simp [Key.text, Func.name] <;> decide
    · rw [List.count_eq_zero.2 fun hmem => hpoint (hrun.subset hmem)]
      exact Nat.zero_le 1
    · cases f <;> simp [Key.text, Func.name, Juxtaposed] <;> decide

theorem Key.text_ne_nil (key : Key) : key.text ≠ [] := key.wellFormedBuffer_text.ne_nil

/-- A key without a point starts no figures with one. -/
theorem Key.count_point_takeWhile {key : Key} (h : key ≠ .point) :
    (key.text.takeWhile isFigure).count '.' = 0 := by
  refine List.count_eq_zero.2 fun hmem => ?_
  have hpoint := (List.takeWhile_prefix _).subset hmem
  cases key with
  | digit c hc =>
    obtain rfl := List.mem_singleton.1 hpoint
    cases hc
  | point => exact h rfl
  | operator c hc =>
    obtain rfl := List.mem_singleton.1 hpoint
    cases hc
  | lparen | rparen => cases List.mem_singleton.1 hpoint
  | constant k => cases k <;> cases List.mem_singleton.1 hpoint
  | func f => revert hpoint; cases f <;> decide

/-! ### Characters that can stand side by side -/

theorem goTogether_figure {a b : Char} (hb : isFigure b = true)
    (ha : ¬ (a = ')' ∨ isConstantChar a = true)) : GoTogether a b := by
  obtain ⟨hop, hletter, hconstant, hlparen⟩ := classes_of_isFigure hb
  refine ⟨fun h => by simp [hop] at h, ?_⟩
  rintro (⟨-, h | h | h⟩ | ⟨h, -⟩)
  · exact hlparen h
  · simp [hconstant] at h
  · simp [hletter] at h
  · exact ha h

theorem goTogether_operator {a b : Char} (hb : isOperatorChar b = true)
    (ha : isOperatorChar a = false) : GoTogether a b := by
  obtain ⟨hfigure, hletter, hconstant, -, hlparen, -⟩ := classes_of_isOperatorChar hb
  simp only [isFigure, Bool.or_eq_false_iff, beq_eq_false_iff_ne] at hfigure
  refine ⟨fun h => by simp [ha] at h, ?_⟩
  rintro (⟨-, h | h | h⟩ | ⟨-, h | h⟩)
  · exact hlparen h
  · simp [hconstant] at h
  · simp [hletter] at h
  · simp [hfigure.1] at h
  · exact hfigure.2 h

theorem goTogether_of_not_endsValue {a b : Char} (ha : endsValue a = false)
    (hb : isOperatorChar b = false) : GoTogether a b := by
  simp only [endsValue, Bool.or_eq_false_iff, beq_eq_false_iff_ne] at ha
  refine ⟨fun h => by simp [hb] at h, ?_⟩
  rintro (⟨h, -⟩ | ⟨h | h, -⟩)
  · simp [endsValue, ha] at h
  · exact ha.1.2 h
  · simp [ha.2] at h

/-- A key goes with the last character unless both are operators or a multiplication sign is left
out between them. -/
theorem Key.goTogether {a : Char} {key : Key}
    (hop : key.isOperator = true → isOperatorChar a = false)
    (htimes : impliesTimes a key = false) : ∀ b ∈ key.text.head?, GoTogether a b := by
  -- the two rules by which a multiplication sign is left out
  have hgroup (h : key.opensGroup = true) : endsValue a = false := by
    simp only [impliesTimes, h, Bool.and_true, Bool.or_eq_false_iff] at htimes
    exact htimes.1
  have hnumber (h : key.startsNumber = true) : ¬ (a = ')' ∨ isConstantChar a = true) := by
    simp only [impliesTimes, h, Bool.and_true, Bool.or_eq_false_iff, beq_eq_false_iff_ne] at htimes
    simpa [not_or] using htimes.2
  intro b hb
  cases key with
  | digit c hc =>
    obtain rfl := Option.some.inj hb
    exact goTogether_figure (isFigure_of_isDigit hc) (hnumber rfl)
  | point =>
    obtain rfl := Option.some.inj hb
    exact goTogether_figure rfl (hnumber rfl)
  | operator c hc =>
    obtain rfl := Option.some.inj hb
    exact goTogether_operator hc (hop rfl)
  | lparen =>
    obtain rfl := Option.some.inj hb
    exact goTogether_of_not_endsValue (hgroup rfl) (by decide)
  | rparen =>
    obtain rfl := Option.some.inj hb
    refine ⟨fun h => by simp [show isOperatorChar ')' = false by decide] at h, ?_⟩
    rintro (⟨-, h | h | h⟩ | ⟨-, h | h⟩) <;> cases h
  | constant k =>
    obtain rfl := Option.some.inj hb
    exact goTogether_of_not_endsValue (hgroup rfl) (by cases k <;> decide)
  | func f => exact goTogether_of_not_endsValue (hgroup rfl) (by cases f <;> cases hb <;> decide)

/-! ### Typing a key -/

theorem Key.takeWhile_isFigure_operator {key : Key} (h : key.isOperator = true) :
    key.text.takeWhile isFigure = [] := by
  cases key with
  | operator c hc => simp [Key.text, (classes_of_isOperatorChar hc).1]
  | _ => cases h

theorem impliesTimes_operator {a : Char} {key : Key} (h : key.isOperator = true) :
    impliesTimes a key = false := by
  have hgroup : key.opensGroup = false := by cases key <;> first | rfl | cases h
  have hnumber : key.startsNumber = false := by cases key <;> first | rfl | cases h
  rw [impliesTimes, hgroup, hnumber, Bool.and_false, Bool.and_false]
  rfl

/-- The multiplication sign that is put in front of a key goes with it. -/
theorem Key.wellFormedBuffer_times_text {a : Char} {key : Key} (h : impliesTimes a key = true) :
    WellFormedBuffer ('*' :: key.text) := by
  have hop : key.isOperator = true → isOperatorChar '*' = false := by
    intro hkey
    rw [impliesTimes_operator hkey] at h
    cases h
  have hstar := wellFormedBuffer_singleton (c := '*') (by decide)
  have hends : endsValue '*' = false := by decide
  have hconstant : isConstantChar '*' = false := by decide
  have hfigures : lastFigures ['*'] = [] := by decide
  refine hstar.append key.wellFormedBuffer_text ?_ ?_
  · intro b hb
    obtain rfl := Option.some.inj hb
    exact Key.goTogether hop (by simp [impliesTimes, hends, hconstant])
  · rw [hfigures, List.count_nil, Nat.zero_add]
    exact key.wellFormedBuffer_text.points _ (List.takeWhile_prefix _).isInfix
      fun c hc => List.all_eq_true.1 List.all_takeWhile c hc

theorem goTogether_times {a : Char} {key : Key} (h : impliesTimes a key = true) :
    GoTogether a '*' := by
  refine goTogether_operator (by decide) ?_
  rw [Bool.eq_false_iff]
  intro hop
  obtain ⟨-, -, hconstant, hends, -, hrparen⟩ := classes_of_isOperatorChar hop
  simp [impliesTimes, hends, hconstant, hrparen] at h

/-- Typing a key keeps a text in good order. -/
theorem WellFormedBuffer.insertKey {buffer : List Char} (h : WellFormedBuffer buffer) (key : Key) :
    WellFormedBuffer (insertKey buffer key) := by
  obtain ⟨init, a, rfl⟩ : ∃ init a, buffer = init ++ [a] :=
    ⟨_, _, (List.dropLast_append_getLast h.ne_nil).symm⟩
  have hlast := h.count_lastFigures_le
  unfold PocketCalc.insertKey
  simp only [List.getLast?_append, List.getLast?_singleton, Option.some_or, Option.any_some,
    List.dropLast_concat]
  split_ifs with hop hpoint hempty htimes
  · -- the operator before the key gives way to it
    obtain ⟨hkey, ha⟩ := Bool.and_eq_true_iff.1 hop
    rcases List.eq_nil_or_concat init with rfl | ⟨init, z, rfl⟩
    · exact key.wellFormedBuffer_text
    rw [List.concat_eq_append] at h ⊢
    have hinit := h.of_prefix_ne_nil (List.prefix_append _ _) (by simp)
    refine hinit.append key.wellFormedBuffer_text ?_ ?_
    · have hz : isOperatorChar z = false := by
        have hchain := (List.isChain_append.1 h.operators).2.2 z (by simp) a (by simp)
        simpa [ha] using hchain
      intro y hy
      obtain rfl : z = y := by simpa using hy
      exact Key.goTogether (fun _ => hz) (impliesTimes_operator hkey)
    · rw [Key.takeWhile_isFigure_operator hkey]
      exact hinit.count_lastFigures_le
  · exact h
  · exact key.wellFormedBuffer_text
  · refine h.append (Key.wellFormedBuffer_times_text htimes) ?_ hlast
    intro y hy b hb
    obtain rfl : a = y := by simpa using hy
    obtain rfl : '*' = b := by simpa using hb
    exact goTogether_times htimes
  · refine h.append key.wellFormedBuffer_text ?_ ?_
    · intro y hy
      obtain rfl : a = y := by simpa using hy
      exact Key.goTogether (fun hkey => by simpa [hkey] using hop) (by simpa using htimes)
    · by_cases hkey : key = .point
      · -- a second point was ignored before
        have hzero := List.count_eq_zero.2 fun hmem => hpoint ⟨hkey, hmem⟩
        rw [hzero, hkey]
        decide
      · rw [Key.count_point_takeWhile hkey]
        exact hlast

/-! ### Results -/

/-- A run of digits with one point at most is in good order. -/
theorem wellFormedBuffer_of_figures {text : List Char} (hne : text ≠ [])
    (hfigure : ∀ c ∈ text, isFigure c = true) (hpoint : text.count '.' ≤ 1) :
    WellFormedBuffer text := by
  -- any two figures can stand side by side, so also any two neighbours
  have hchain : text.IsChain GoTogether := by
    refine (List.pairwise_of_forall_mem_list fun a ha b hb => ?_).isChain
    obtain ⟨-, -, hconstant, -⟩ := classes_of_isFigure (hfigure a ha)
    refine goTogether_figure (hfigure b hb) ?_
    rintro (rfl | h)
    · cases hfigure ')' ha
    · simp [hconstant] at h
  refine ⟨hne, fun c hc => ?_, hchain.imp fun _ _ h => h.1, fun run hrun _ => ?_,
    hchain.imp fun _ _ h => h.2⟩
  · rcases isFigure_iff.1 (hfigure c hc) with h | h <;> simp [isTypedChar, h]
  · exact (hrun.sublist.count_le '.').trans hpoint

/-- The text of a decimal is in good order. -/
theorem Decimal.wellFormedBuffer_text (d : Decimal) : WellFormedBuffer d.text := by
  obtain ⟨c, rest, hcons, hc⟩ := d.exists_figures_eq_cons
  have hfigures : WellFormedBuffer d.figures :=
    wellFormedBuffer_of_figures (by simp [hcons]) (fun _ => isFigure_of_mem_figures)
      d.count_point_figures_le
  rw [text_eq]
  by_cases hneg : d.coeff < 0
  · rw [if_pos hneg]
    refine (wellFormedBuffer_singleton (c := '-') (by decide)).append hfigures ?_ ?_
    · intro a ha b hb
      obtain rfl : '-' = a := by simpa using ha
      obtain rfl : c = b := by simpa [hcons] using hb
      exact goTogether_figure (isFigure_of_isDigit hc) (by decide)
    · have hminus : lastFigures ['-'] = [] := by decide
      rw [hminus, List.count_nil, Nat.zero_add]
      exact ((List.takeWhile_prefix _).count_le '.').trans d.count_point_figures_le
  · simpa [hneg] using hfigures

/-! ### Sessions -/

namespace Session

/-- Unless the marker is shown, the text is in good order. -/
def InGoodOrder (s : Session) : Prop := s.inError = false → WellFormedBuffer s.buffer

theorem wellFormedBuffer_emptyBuffer : WellFormedBuffer emptyBuffer :=
  wellFormedBuffer_singleton (by decide)

theorem kept_wellFormedBuffer : Kept WellFormedBuffer where
  empty := wellFormedBuffer_emptyBuffer
  insertKey key h := h.insertKey key
  result d := d.wellFormedBuffer_text

theorem keptByDelete_wellFormedBuffer : KeptByDelete WellFormedBuffer := fun h hne =>
  h.of_prefix_ne_nil (List.dropLast_prefix _) hne

theorem InGoodOrder.run {s : Session} (h : s.InGoodOrder) (actions : List Action) :
    (s.run actions).InGoodOrder :=
  kept_wellFormedBuffer.run (fun _ => keptByDelete_wellFormedBuffer) h

theorem inGoodOrder_run (settings : Settings) (actions : List Action) :
    (({ settings := settings } : Session).run actions).InGoodOrder :=
  InGoodOrder.run (fun _ => wellFormedBuffer_emptyBuffer) actions

/-- **Whatever is done in a session, its text stays in good order unless the marker is shown.** -/
theorem wellFormedBuffer_run (settings : Settings) (actions : List Action)
    (h : (({ settings := settings } : Session).run actions).inError = false) :
    WellFormedBuffer (({ settings := settings } : Session).run actions).buffer :=
  InGoodOrder.run (fun _ => wellFormedBuffer_emptyBuffer) actions h

/-- `7` over `2`, shown as a result, times a function whose name is cut short. -/
theorem wellFormedBuffer_cut_function :
    (({} : Session).run [.append ['7'], .append ['÷'], .append ['2'], .evaluate,
      .append ['l', 'n', '('], .delete]).inError = false ∧
    WellFormedBuffer (({} : Session).run [.append ['7'], .append ['÷'], .append ['2'], .evaluate,
      .append ['l', 'n', '('], .delete]).buffer :=
  have h : (({} : Session).run [.append ['7'], .append ['÷'], .append ['2'], .evaluate,
      .append ['l', 'n', '('], .delete]).inError = false := by decide +kernel
  ⟨h, wellFormedBuffer_run {} _ h⟩

end Session

end PocketCalc
