import PocketCalc.Proofs.Session.Buffer

/-!
# Typing an expression

Keys that are typed in order spell the expression: the text is that of the keys one after another,
with a multiplication sign wherever the rules for two neighbouring keys ask for one (`spelled`).

The text is all that a session knows of the keys so far.  Its last character tells what the last key
was (`Key.classes_of_last`), the figures at its end are those of the last keys
(`exists_block_of_point`), and it is a lone `0` only if this was the only key
(`eq_of_spelled_eq_emptyBuffer`).  So each further key is put behind it as the rules ask
(`insertKey_spelled`).

Main statement: `buffer_run_append`.
-/

namespace PocketCalc

namespace Key

/-- A value ends with the key. -/
def endsValue : Key → Bool
  | digit _ _ | rparen | constant _ => true
  | _ => false

/-- A group or a constant ends with the key. -/
def endsGroup : Key → Bool
  | rparen | constant _ => true
  | _ => false

/-- A multiplication sign is left out between two keys: a value ends and a group, a constant or a
function begins, or a group or a constant ends and a number begins. -/
def leavesOutTimes (k l : Key) : Bool :=
  (k.endsValue && l.opensGroup) || (k.endsGroup && l.startsNumber)

end Key

/-- The texts of keys one after another, with a multiplication sign wherever one is left out. -/
def spelled : List Key → List Char
  | [] => []
  | [k] => k.text
  | k :: l :: keys =>
    k.text ++ (if k.leavesOutTimes l then ['*'] else []) ++ spelled (l :: keys)

/-- Keys that are typed in order, so that none of them replaces another one or is ignored. -/
structure InOrder (keys : List Key) : Prop where
  /-- The first is neither an operator nor a point. -/
  first : ∀ k ∈ keys.head?, k.isOperator = false ∧ k ≠ .point
  /-- After a zero at the start comes a point or an operator, if anything. -/
  zero : ∀ k l rest, keys = k :: l :: rest → k.text = ['0'] → l = .point ∨ l.isOperator = true
  /-- No operator comes right after another one. -/
  operators : keys.IsChain fun k l => ¬ (k.isOperator = true ∧ l.isOperator = true)
  /-- Digits and points in a row have one point at most. -/
  points : ∀ block, block <:+: keys → (∀ k ∈ block, k.startsNumber = true) →
    block.count .point ≤ 1

theorem InOrder.of_prefix {keys ks : List Key} (h : InOrder keys) (hpre : ks <+: keys) :
    InOrder ks where
  first k hk := by
    obtain ⟨rest, rfl⟩ := List.head?_eq_some_iff.1 hk
    obtain ⟨after, rfl⟩ := hpre
    exact h.first k rfl
  zero k l rest hks := by
    subst hks
    obtain ⟨after, rfl⟩ := hpre
    exact h.zero k l (rest ++ after) rfl
  operators := h.operators.prefix hpre
  points block hblock := h.points block (hblock.trans hpre.isInfix)

/-! ### The text of a key -/

theorem Key.text_of_ofChar? {c : Char} {key : Key} (h : ofChar? c = some key) :
    key.text = [c] := by
  unfold ofChar? at h
  split at h
  · obtain rfl := Option.some.inj h
    rfl
  split_ifs at h with hpoint hlparen hrparen hop
  · obtain rfl := Option.some.inj h
    rw [hpoint]
    rfl
  · obtain rfl := Option.some.inj h
    rw [hlparen]
    rfl
  · obtain rfl := Option.some.inj h
    rw [hrparen]
    rfl
  · split at h
    · rename_i k hk
      obtain rfl := Option.some.inj h
      rw [Key.text, Constant.symbol_of_ofSymbol? hk]
    · obtain rfl := Option.some.inj h
      rfl
  · split at h
    · rename_i k hk
      obtain rfl := Option.some.inj h
      rw [Key.text, Constant.symbol_of_ofSymbol? hk]
    · cases h

/-- The key is told by the text on it. -/
theorem Key.text_of_read? {text : List Char} {key : Key} (h : read? text = some key) :
    key.text = text := by
  unfold read? at h
  split at h
  · exact text_of_ofChar? h
  · split_ifs at h with hlast
    obtain ⟨f, hf, rfl⟩ := Option.map_eq_some_iff.1 h
    obtain ⟨init, rfl⟩ := List.getLast?_eq_some_iff.1 hlast
    rw [List.dropLast_concat] at hf
    rw [Key.text, Func.name_of_ofName? hf]

/-- The last character that a key types tells of which kind the key is. -/
theorem Key.classes_of_last {k : Key} {c : Char} (h : c ∈ k.text.getLast?) :
    isOperatorChar c = k.isOperator ∧ PocketCalc.endsValue c = k.endsValue ∧
      (c == ')' || isConstantChar c) = k.endsGroup ∧ isFigure c = k.startsNumber := by
  cases k with
  | digit d hd =>
    obtain rfl : d = c := Option.some.inj h
    have hfigure := isFigure_of_isDigit hd
    obtain ⟨hop, -, hconstant, -⟩ := classes_of_isFigure hfigure
    have hrparen : d ≠ ')' := by
      rintro rfl
      cases hd
    refine ⟨hop, ?_, ?_, hfigure⟩
    · rw [PocketCalc.endsValue, hd]
      rfl
    · rw [hconstant, beq_false_of_ne hrparen]
      rfl
  | operator o ho =>
    obtain rfl : o = c := Option.some.inj h
    obtain ⟨hfigure, -, hconstant, hends, -, hrparen⟩ := classes_of_isOperatorChar ho
    refine ⟨ho, hends, ?_, hfigure⟩
    rw [hconstant, beq_false_of_ne hrparen]
    rfl
  | point =>
    obtain rfl : '.' = c := Option.some.inj h
    decide
  | lparen =>
    obtain rfl : '(' = c := Option.some.inj h
    decide
  | rparen =>
    obtain rfl : ')' = c := Option.some.inj h
    decide
  | constant k =>
    obtain rfl : k.symbol = c := Option.some.inj h
    cases k <;> exact ⟨rfl, rfl, rfl, rfl⟩
  | func f =>
    obtain rfl : '(' = c := by simpa [Key.text] using h
    exact ⟨rfl, rfl, rfl, rfl⟩

theorem impliesTimes_eq_leavesOutTimes {k : Key} {c : Char} (h : c ∈ k.text.getLast?) (l : Key) :
    impliesTimes c l = k.leavesOutTimes l := by
  obtain ⟨-, hends, hgroup, -⟩ := Key.classes_of_last h
  rw [impliesTimes, hends, hgroup, Key.leavesOutTimes]

/-- A key that can be the first of a number types one character. -/
theorem Key.exists_text_eq_singleton {k : Key} (h : k.startsNumber = true) :
    ∃ c, k.text = [c] ∧ isFigure c = true ∧ (c = '.' → k = .point) := by
  cases k with
  | digit c hc =>
    refine ⟨c, rfl, isFigure_of_isDigit hc, ?_⟩
    rintro rfl
    cases hc
  | point => exact ⟨'.', rfl, rfl, fun _ => rfl⟩
  | operator | lparen | rparen | constant | func => cases h

/-! ### The text of several keys -/

theorem spelled_concat (keys : List Key) (k l : Key) :
    spelled (keys ++ [k] ++ [l]) =
      spelled (keys ++ [k]) ++ (if k.leavesOutTimes l then ['*'] else []) ++ l.text := by
  induction keys with
  | nil => rfl
  | cons a keys ih =>
    cases keys with
    | nil => simp [spelled]
    | cons b keys =>
      simp only [List.cons_append, spelled, List.append_assoc] at ih ⊢
      rw [ih]

theorem getLast?_spelled (keys : List Key) (k : Key) :
    (spelled (keys ++ [k])).getLast? = k.text.getLast? := by
  rcases List.eq_nil_or_concat keys with rfl | ⟨keys, j, rfl⟩
  · rfl
  · rw [List.concat_eq_append, spelled_concat, List.getLast?_append_of_ne_nil _ k.text_ne_nil]

/-- The text ends with the last character of the last key. -/
theorem exists_last_spelled (keys : List Key) (k : Key) :
    ∃ c ∈ k.text.getLast?, c ∈ (spelled (keys ++ [k])).getLast? := by
  have hlast : k.text.getLast? = some (k.text.getLast k.text_ne_nil) :=
    List.getLast?_eq_some_getLast k.text_ne_nil
  exact ⟨_, hlast, (getLast?_spelled keys k).trans hlast⟩

theorem spelled_ne_nil (keys : List Key) (k : Key) : spelled (keys ++ [k]) ≠ [] := by
  intro h
  have hlast := getLast?_spelled keys k
  rw [h, List.getLast?_nil] at hlast
  exact k.text_ne_nil (List.getLast?_eq_none_iff.1 hlast.symm)

/-- Only the key `0` alone spells the text that nothing has been typed of. -/
theorem eq_of_spelled_eq_emptyBuffer {keys : List Key} {k : Key}
    (h : spelled (keys ++ [k]) = emptyBuffer) : keys = [] ∧ k.text = ['0'] := by
  rcases List.eq_nil_or_concat keys with rfl | ⟨keys, j, rfl⟩
  · exact ⟨rfl, h⟩
  · have hlength := congrArg List.length h
    rw [List.concat_eq_append, spelled_concat] at hlength
    have hbefore := List.length_pos_of_ne_nil (spelled_ne_nil keys j)
    have hkey := List.length_pos_of_ne_nil k.text_ne_nil
    simp only [List.length_append, emptyBuffer, List.length_singleton] at hlength
    omega

theorem lastFigures_concat (buffer : List Char) (c : Char) :
    lastFigures (buffer ++ [c]) = if isFigure c then c :: lastFigures buffer else [] := by
  simp [lastFigures, List.takeWhile_cons]

/-- A point among the last figures was typed among the last digits and points. -/
theorem exists_block_of_point {keys : List Key} (h : '.' ∈ lastFigures (spelled keys)) :
    ∃ block, block <:+ keys ∧ (∀ k ∈ block, k.startsNumber = true) ∧ .point ∈ block := by
  induction keys using List.reverseRecOn with
  | nil => cases h
  | append_singleton keys k ih =>
    by_cases hk : k.startsNumber = true
    · obtain ⟨c, htext, hc, hpoint⟩ := Key.exists_text_eq_singleton hk
      -- the point is this key, or it stands in the figures before it
      have hcases (before : List Char) (hb : spelled (keys ++ [k]) = before ++ [c]) :
          k = .point ∨ '.' ∈ lastFigures before := by
        rw [hb, lastFigures_concat, if_pos hc] at h
        exact (List.mem_cons.1 h).imp_left fun hdot => hpoint hdot.symm
      have hsingle (hkey : k = .point) : ∃ block, block <:+ keys ++ [k] ∧
          (∀ k ∈ block, k.startsNumber = true) ∧ .point ∈ block :=
        ⟨[k], List.suffix_append keys [k], by simpa using hk, by simp [hkey]⟩
      rcases List.eq_nil_or_concat keys with rfl | ⟨keys, j, rfl⟩
      · rcases hcases [] htext with hkey | hbefore
        · exact hsingle hkey
        · cases hbefore
      · rw [List.concat_eq_append] at *
        rcases hcases _ (by rw [spelled_concat, htext]) with hkey | hbefore
        · exact hsingle hkey
        · split_ifs at hbefore with htimes
          · rw [lastFigures_concat] at hbefore
            cases hbefore
          · rw [List.append_nil] at hbefore
            obtain ⟨block, ⟨rest, hrest⟩, hblock, hmem⟩ := ih hbefore
            refine ⟨block ++ [k], ⟨rest, by rw [← hrest, List.append_assoc]⟩, ?_,
              List.mem_append_left _ hmem⟩
            simpa [or_imp, forall_and, hk] using hblock
    · obtain ⟨c, hlast, hc⟩ := exists_last_spelled keys k
      obtain ⟨before, hbefore⟩ := List.getLast?_eq_some_iff.1 hc
      rw [hbefore, lastFigures_concat, (Key.classes_of_last hlast).2.2.2, if_neg hk] at h
      cases h

/-! ### Typing in order -/

theorem insertKey_emptyBuffer {k : Key} (h : InOrder [k]) : insertKey emptyBuffer k = k.text := by
  obtain ⟨hop, hpoint⟩ := h.first k rfl
  simp [insertKey, hop, hpoint]

/-- **A key that is typed in order is put behind the others, after a multiplication sign if one is
left out.** -/
theorem insertKey_spelled {keys : List Key} {k l : Key} (h : InOrder (keys ++ [k] ++ [l])) :
    insertKey (spelled (keys ++ [k])) l = spelled (keys ++ [k] ++ [l]) := by
  obtain ⟨c, hlast, hc⟩ := exists_last_spelled keys k
  -- neither does the key take the place of an operator
  have hop : ¬ (l.isOperator && isOperatorChar c) = true := by
    have hmeet := (List.isChain_append.1 h.operators).2.2 k (by simp) l rfl
    rw [(Key.classes_of_last hlast).1, Bool.and_eq_true, and_comm]
    exact hmeet
  -- nor is it a point too many
  have hpoint : ¬ (l = .point ∧ '.' ∈ lastFigures (spelled (keys ++ [k]))) := by
    rintro ⟨rfl, hmem⟩
    obtain ⟨block, ⟨rest, hrest⟩, hblock, hdot⟩ := exists_block_of_point hmem
    have hstarts : Key.point.startsNumber = true := rfl
    have hcount := h.points (block ++ [.point]) ⟨rest, [], by rw [← hrest]; simp⟩
      (by simpa [or_imp, forall_and, hstarts] using hblock)
    have hone := List.one_le_count_iff.2 hdot
    rw [List.count_append, List.count_singleton_self] at hcount
    omega
  -- nor does it take the place of a zero
  have hzero : ¬ (spelled (keys ++ [k]) = emptyBuffer ∧ l ≠ .point ∧ l.isOperator = false) := by
    rintro ⟨hempty, hne, hfalse⟩
    obtain ⟨rfl, htext⟩ := eq_of_spelled_eq_emptyBuffer hempty
    rcases h.zero k l [] rfl htext with hl | hl
    · exact hne hl
    · rw [hfalse] at hl
      cases hl
  rw [insertKey, Option.mem_def.1 hc, Option.any_some, Option.any_some, if_neg hop, if_neg hpoint,
    if_neg hzero, impliesTimes_eq_leavesOutTimes hlast, spelled_concat]
  split_ifs
  · rw [List.append_assoc]
    rfl
  · rw [List.append_nil]

namespace Session

/-- Nothing has been typed, everything has been taken back, or a marker is shown. -/
def StartsAnew (s : Session) : Prop :=
  (∃ settings : Settings, s = { settings := settings }) ∨ (∃ r : Session, s = r.clear) ∨
    s.inError = true

theorem StartsAnew.inError_or {s : Session} (h : s.StartsAnew) :
    s.inError = true ∨ s.inError = false ∧ s.buffer = emptyBuffer := by
  rcases h with ⟨settings, rfl⟩ | ⟨r, rfl⟩ | h
  · exact .inr ⟨rfl, rfl⟩
  · exact .inr ⟨rfl, rfl⟩
  · exact .inl h

theorem append_text (s : Session) (k : Key) : s.append k.text = s.press k := by
  rw [append, Key.read?_text]

theorem press_of_startsAnew {s : Session} (h : s.StartsAnew) (k : Key) :
    (s.press k).inError = false ∧ (s.press k).buffer = insertKey emptyBuffer k := by
  rcases h.inError_or with herror | ⟨herror, hbuffer⟩
  · simp [press, herror, clear]
  · simp [press, herror, hbuffer]

/-- Keys that are typed in order spell the text. -/
theorem run_append_text {s : Session} (hs : s.StartsAnew) {keys : List Key} {k : Key}
    (h : InOrder (keys ++ [k])) :
    (s.run ((keys ++ [k]).map fun k : Key => .append k.text)).inError = false ∧
      (s.run ((keys ++ [k]).map fun k : Key => .append k.text)).buffer = spelled (keys ++ [k]) := by
  induction keys using List.reverseRecOn generalizing k with
  | nil =>
    obtain ⟨herror, hbuffer⟩ := press_of_startsAnew hs k
    rw [insertKey_emptyBuffer h] at hbuffer
    have hrun : s.run (([] ++ [k]).map fun k : Key => .append k.text) = s.press k := s.append_text k
    rw [hrun]
    exact ⟨herror, hbuffer⟩
  | append_singleton keys j ih =>
    obtain ⟨herror, hbuffer⟩ := ih (h.of_prefix (List.prefix_append _ _))
    rw [List.map_append, run_append]
    generalize s.run ((keys ++ [j]).map fun k : Key => .append k.text) = t at herror hbuffer
    have hrun : t.run ([k].map fun k : Key => .append k.text) = t.press k := t.append_text k
    rw [hrun, press, herror]
    exact ⟨herror, by rw [← insertKey_spelled h, ← hbuffer]; rfl⟩

/-- **Typing keys spells the expression.**  However a session starts anew, the known keys that are
typed in order come to the text of these keys, with a multiplication sign wherever one is left
out. -/
theorem buffer_run_append {s : Session} (hs : s.StartsAnew) {texts : List (List Char)}
    {keys : List Key} (hknown : texts.map Key.read? = keys.map some) (hne : keys ≠ [])
    (horder : InOrder keys) :
    texts = keys.map Key.text ∧ (s.run (texts.map .append)).buffer = spelled keys := by
  have htexts : texts = keys.map Key.text := by
    refine List.ext_getElem (by simpa using congrArg List.length hknown) fun i hi hi' => ?_
    have hread := List.getElem_of_eq hknown (by simpa using hi)
    rw [List.getElem_map, List.getElem_map] at hread
    rw [List.getElem_map, Key.text_of_read? hread]
  refine ⟨htexts, ?_⟩
  rcases List.eq_nil_or_concat keys with rfl | ⟨init, k, rfl⟩
  · exact absurd rfl hne
  · rw [List.concat_eq_append] at *
    rw [htexts, List.map_map]
    exact (run_append_text hs horder).2

/-- After an error, `0.5)` times a constant, times a number, over a function of a constant. -/
theorem buffer_run_append_after_error :
    (({} : Session).run [.append ['+'], .evaluate]).StartsAnew ∧
    InOrder [.digit '0' rfl, .point, .digit '5' rfl, .rparen, .constant .e, .digit '3' rfl,
      .operator '÷' rfl, .func .sin, .constant .pi] ∧
    ((({} : Session).run [.append ['+'], .evaluate]).run
      [.append ['0'], .append ['.'], .append ['5'], .append [')'], .append ['e'], .append ['3'],
        .append ['÷'], .append ['s', 'i', 'n', '('], .append ['π']]).buffer =
      ['0', '.', '5', ')', '*', 'e', '*', '3', '÷', 's', 'i', 'n', '(', 'π'] := by
  have hstart : (({} : Session).run [.append ['+'], .evaluate]).StartsAnew := .inr (.inr rfl)
  have horder : InOrder [.digit '0' rfl, .point, .digit '5' rfl, .rparen, .constant .e,
      .digit '3' rfl, .operator '÷' rfl, .func .sin, .constant .pi] := by
    refine ⟨fun k hk => ?_, fun k l rest hkeys _ => ?_, by decide, fun block hblock _ => ?_⟩
    · obtain rfl := Option.some.inj hk
      decide
    · obtain ⟨-, hrest⟩ := List.cons.inj hkeys
      obtain ⟨rfl, -⟩ := List.cons.inj hrest
      exact .inl rfl
    · exact (hblock.sublist.count_le _).trans (by decide)
  refine ⟨hstart, horder, ?_⟩
  show (Session.run _ ([['0'], ['.'], ['5'], [')'], ['e'], ['3'], ['÷'], ['s', 'i', 'n', '('],
    ['π']].map .append)).buffer = _
  exact (buffer_run_append hstart rfl (List.cons_ne_nil _ _) horder).2

end Session

end PocketCalc
