import Mathlib.Data.List.SplitBy
import PocketCalc.Proofs.Session.Buffer

/-!
# The last operator counts

An operator takes the place of one that the text ends with.  So an operator that is typed right
after another one leads where it would have led without that one, also if a marker was shown or the
text ended with an operator before (`press_press`).  Hence a block of operators does what its last
one does (`foldl_press_block`), wherever it stands among the keys.

Main statement: `run_eq_of_lastOperators`.
-/

namespace PocketCalc

/-- Both keys are operators. -/
def bothOperators (k l : Key) : Bool := k.isOperator && l.isOperator

/-- The keys with each maximal block of operators reduced to its last one. -/
def lastOperators (keys : List Key) : List Key :=
  (keys.splitBy bothOperators).filterMap List.getLast?

variable {k l : Key}

/-! ### One operator after another -/

theorem insertKey_operator (buffer : List Char) (h : k.isOperator = true) :
    insertKey buffer k =
      (if buffer.getLast?.any isOperatorChar then buffer.dropLast else buffer) ++ k.text := by
  have hpoint : k ≠ .point := by
    rintro rfl
    cases h
  have htimes : buffer.getLast?.any (impliesTimes · k) = false := by
    simp [impliesTimes_operator h]
  unfold insertKey
  simp only [h, hpoint, htimes, Bool.true_and, false_and, Bool.true_eq_false, and_false, if_false,
    Bool.false_eq_true]
  split <;> rfl

/-- After another operator, an operator leads where it leads alone. -/
theorem insertKey_insertKey (buffer : List Char) (hk : k.isOperator = true)
    (hl : l.isOperator = true) : insertKey (insertKey buffer k) l = insertKey buffer l := by
  cases k with
  | operator c hc =>
    rw [insertKey_operator buffer hk, insertKey_operator buffer hl, insertKey_operator _ hl]
    simp [Key.text, hc]
  | digit | point | lparen | rparen | constant | func => cases hk

namespace Session

theorem press_press (s : Session) (hk : k.isOperator = true) (hl : l.isOperator = true) :
    (s.press k).press l = s.press l := by
  unfold Session.press
  by_cases hup : s.inError = true
  · simp [hup, Session.clear, insertKey_insertKey _ hk hl]
  · simp [hup, insertKey_insertKey _ hk hl]

/-! ### Several keys -/

/-- A block of operators does what its last one does. -/
theorem foldl_press_block {block : List Key} (hne : block ≠ [])
    (h : block.IsChain fun k l => bothOperators k l) (s : Session) :
    block.foldl press s = s.press (block.getLast hne) := by
  induction block with
  | nil => exact absurd rfl hne
  | cons k block ih =>
    cases block with
    | nil => rfl
    | cons l block =>
      obtain ⟨hboth, hrest⟩ := List.isChain_cons_cons.1 h
      obtain ⟨hk, hl⟩ := Bool.and_eq_true_iff.1 hboth
      calc (k :: l :: block).foldl press s = block.foldl press ((s.press k).press l) := rfl
        _ = (l :: block).foldl press s := by rw [press_press s hk hl]; rfl
        _ = s.press ((l :: block).getLast (List.cons_ne_nil _ _)) := ih (List.cons_ne_nil _ _) hrest
        _ = s.press ((k :: l :: block).getLast hne) := by rw [List.getLast_cons_cons]

theorem foldl_press_blocks {blocks : List (List Key)} (hne : [] ∉ blocks)
    (h : ∀ block ∈ blocks, block.IsChain fun k l => bothOperators k l) (s : Session) :
    blocks.flatten.foldl press s = (blocks.filterMap List.getLast?).foldl press s := by
  induction blocks generalizing s with
  | nil => rfl
  | cons block blocks ih =>
    obtain ⟨hblock, hblocks⟩ := List.forall_mem_cons.1 h
    obtain ⟨hnil, hrest⟩ := not_or.1 (mt List.mem_cons.2 hne)
    rw [List.flatten_cons, List.foldl_append, foldl_press_block (Ne.symm hnil) hblock,
      ih hrest hblocks, List.filterMap_cons_some (List.getLast?_eq_some_getLast (Ne.symm hnil))]
    rfl

/-- The keys lead where they lead with each block of operators reduced to its last one. -/
theorem foldl_press_lastOperators (keys : List Key) (s : Session) :
    (lastOperators keys).foldl press s = keys.foldl press s := by
  have h := foldl_press_blocks (List.nil_notMem_splitBy bothOperators keys)
    (fun _ => List.isChain_of_mem_splitBy) s
  rw [List.flatten_splitBy] at h
  exact h.symm

/-- Only texts that are on a key count. -/
theorem run_append_eq_foldl (s : Session) (texts : List (List Char)) :
    s.run (texts.map .append) = (texts.filterMap Key.read?).foldl press s := by
  induction texts generalizing s with
  | nil => rfl
  | cons text texts ih =>
    show (s.append text).run (texts.map .append) = _
    rw [ih, Session.append]
    cases hkey : Key.read? text with
    | none => rw [List.filterMap_cons_none hkey]
    | some key =>
      rw [List.filterMap_cons_some hkey]
      rfl

/-- **Of several operators in a row the last one counts, in all that is typed.**  Texts that are the
same once those on no key are dropped and each maximal block of operators is reduced to its last one
lead to the same session, whatever has been done before. -/
theorem run_eq_of_lastOperators (s : Session) {texts texts' : List (List Char)}
    (h : lastOperators (texts.filterMap Key.read?) = lastOperators (texts'.filterMap Key.read?)) :
    s.run (texts.map .append) = s.run (texts'.map .append) := by
  rw [run_append_eq_foldl, run_append_eq_foldl, ← foldl_press_lastOperators, h,
    foldl_press_lastOperators]

/-- What is left of the result of `2-3` is a lone operator, which gives way to the first one typed;
a text on no key does not end a block. -/
theorem run_eq_of_lastOperators_lone_minus :
    lastOperators ([['×'], ['#'], ['÷'], ['π'], ['+'], ['−'], ['.']].filterMap Key.read?) =
      lastOperators ([['÷'], ['π'], ['−'], ['.']].filterMap Key.read?) ∧
    (({} : Session).run [.append ['2'], .append ['-'], .append ['3'], .evaluate, .delete]).buffer =
      ['-'] ∧
    ((({} : Session).run [.append ['2'], .append ['-'], .append ['3'], .evaluate, .delete]).run
        ([['×'], ['#'], ['÷'], ['π'], ['+'], ['−'], ['.']].map .append)).buffer =
      ['÷', 'π', '−', '.'] := by
  have hkeys : lastOperators
        ([['×'], ['#'], ['÷'], ['π'], ['+'], ['−'], ['.']].filterMap Key.read?) =
      lastOperators ([['÷'], ['π'], ['−'], ['.']].filterMap Key.read?) := by
    decide
  refine ⟨hkeys, by decide +kernel, ?_⟩
  rw [run_eq_of_lastOperators _ hkeys]
  decide +kernel

end Session

end PocketCalc
