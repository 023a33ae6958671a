import PocketCalc.Rpn.Convert

/-!
# The steps of a conversion

What reading one token can do to a conversion, written as a relation with one constructor per kind
of change (`Conversion.Step`).  It is exactly the function `Conversion.step`
(`step_eq_ok_iff`), but it shows the stack split into the tokens that leave it and the rest.

* `Conversion.Path s ts s'` : reading the tokens `ts` leads from `s` to `s'`; this is exactly
  `Conversion.run` (`run_eq_ok_iff`).
* `ofTokens_eq_ok_iff` : which paths give a result, and which result that is.
* `ofTokens_eq_error_iff` : which tokens are refused, and with which errors.
-/

namespace PocketCalc.Rpn

/-! ### One computation after another -/

section

variable {ε α β : Type} {x : Except ε α} {f : α → Except ε β}

theorem bind_eq_ok_iff {b : β} : x.bind f = .ok b ↔ ∃ a, x = .ok a ∧ f a = .ok b := by
  cases x with
  | error => simp [Except.bind]
  | ok => simp [Except.bind]

theorem bind_eq_error_iff {e : ε} :
    x.bind f = .error e ↔ x = .error e ∨ ∃ a, x = .ok a ∧ f a = .error e := by
  cases x with
  | error => simp [Except.bind]
  | ok => simp [Except.bind]

end

namespace Conversion

/-! ### Splitting the stack -/

/-- The tokens `pending` on top of `rest` satisfy `p`, and the token below them does not. -/
def Splits (p : Token → Bool) (pending rest : List Token) : Prop :=
  (∀ t ∈ pending, p t = true) ∧ ∀ t ∈ rest.head?, p t = false

theorem Splits.takeWhile {p : Token → Bool} {pending rest : List Token}
    (h : Splits p pending rest) : (pending ++ rest).takeWhile p = pending := by
  rw [List.takeWhile_append_of_pos h.1]
  cases rest with
  | nil => simp
  | cons t ts => simp [h.2 t rfl]

theorem Splits.dropWhile {p : Token → Bool} {pending rest : List Token}
    (h : Splits p pending rest) : (pending ++ rest).dropWhile p = rest := by
  rw [List.dropWhile_append_of_pos h.1]
  cases rest with
  | nil => simp
  | cons t ts => simp [h.2 t rfl]

theorem exists_splits (p : Token → Bool) (stack : List Token) :
    ∃ pending rest, stack = pending ++ rest ∧ Splits p pending rest := by
  refine ⟨stack.takeWhile p, stack.dropWhile p, List.takeWhile_append_dropWhile.symm, ?_, ?_⟩
  · exact fun t ht => List.all_eq_true.1 List.all_takeWhile t ht
  · intro t ht
    have h := List.head?_dropWhile_not p stack
    rw [Option.mem_def.1 ht] at h
    simpa using h

theorem unstack_of_splits {p : Token → Bool} {pending rest : List Token} (h : Splits p pending rest)
    (out : List Token) (due : Bool) :
    unstack ⟨out, pending ++ rest, due⟩ p = ⟨out ++ pending, rest, due⟩ := by
  simp [unstack, h.takeWhile, h.dropWhile]

theorem isInner_iff {t : Token} : isInner t = true ↔ t ≠ .lparen := by simp [isInner]

theorem splits_isInner {pending rest : List Token} (h : .lparen ∉ pending) :
    Splits isInner pending (.lparen :: rest) := by
  refine ⟨fun t ht => isInner_iff.2 ?_, fun t ht => ?_⟩
  · rintro rfl
    exact h ht
  · obtain rfl : Token.lparen = t := by simpa using ht
    rfl

/-- An operator moves no parenthesis. -/
theorem Splits.lparen_not_mem {b : Binding} {pending rest : List Token}
    (h : Splits (yields b) pending rest) : .lparen ∉ pending := by
  intro hmem
  have := h.1 _ hmem
  cases this

/-! ### One token -/

/-- Reading the token takes the first conversion to the second. -/
inductive Step : Conversion → Token → Conversion → Prop
  /-- A number is written. -/
  | number (out stack : List Token) (due : Bool) (text : List Char) :
    Step ⟨out, stack, due⟩ (.number text) ⟨out ++ [.number text], stack, false⟩
  /-- A function waits. -/
  | func (out stack : List Token) (due : Bool) (f : Func) :
    Step ⟨out, stack, due⟩ (.func f) ⟨out, .func f :: stack, true⟩
  /-- An opening parenthesis waits. -/
  | lparen (out stack : List Token) (due : Bool) :
    Step ⟨out, stack, due⟩ .lparen ⟨out, .lparen :: stack, true⟩
  /-- A minus sign waits in place of the functions that it moves to the output. -/
  | neg {pending rest : List Token} (out : List Token) (due : Bool) :
    Splits (yields .neg) pending rest →
      Step ⟨out, pending ++ rest, due⟩ .neg ⟨out ++ pending, .neg :: rest, true⟩
  /-- An operator waits in place of those that take the operand before it. -/
  | op {pending rest : List Token} (out : List Token) (o : BinOp) :
    Splits (yields o.binding) pending rest →
      Step ⟨out, pending ++ rest, false⟩ (.op o) ⟨out ++ pending, .op o :: rest, true⟩
  /-- A comma moves what waits inside the innermost group to the output. -/
  | comma {pending rest : List Token} (out : List Token) (due : Bool) :
    .lparen ∉ pending →
      Step ⟨out, pending ++ .lparen :: rest, due⟩ .comma ⟨out ++ pending, .lparen :: rest, true⟩
  /-- A closing parenthesis ends a group that is no function's argument. -/
  | rparen {pending rest : List Token} (out : List Token) :
    .lparen ∉ pending → (∀ f, rest.head? ≠ some (.func f)) →
      Step ⟨out, pending ++ .lparen :: rest, false⟩ .rparen ⟨out ++ pending, rest, false⟩
  /-- A closing parenthesis ends the argument of a function. -/
  | rparenCall {pending rest : List Token} (out : List Token) (f : Func) :
    .lparen ∉ pending →
      Step ⟨out, pending ++ .lparen :: .func f :: rest, false⟩ .rparen
        ⟨out ++ pending ++ [.func f], rest, false⟩

theorem closeGroup_lparen (out rest : List Token) (h : ∀ f, rest.head? ≠ some (.func f)) :
    closeGroup ⟨out, .lparen :: rest, false⟩ = .ok ⟨out, rest, false⟩ := by
  cases rest with
  | nil => rfl
  | cons t ts =>
    cases t with
    | func f => exact absurd rfl (h f)
    | _ => rfl

theorem Step.step_eq {s s' : Conversion} {t : Token} (h : Step s t s') (position : Nat) :
    s.step position t = .ok s' := by
  cases h with
  | number | func | lparen => rfl
  | neg out due h => simp [step, unstack_of_splits h, push]
  | op out o h => simp [step, unstack_of_splits h, push]
  | comma out due h => simp [step, unstack_of_splits (splits_isInner h)]
  | rparen out h hrest =>
    simp [step, unstack_of_splits (splits_isInner h), closeGroup_lparen _ _ hrest]
  | rparenCall out f h => simp [step, unstack_of_splits (splits_isInner h), closeGroup]

/-- With a group open, moving down to its parenthesis leaves it on top. -/
theorem exists_unstack_eq_cons {s : Conversion} (h : .lparen ∈ s.stack) :
    ∃ rest, (s.unstack isInner).stack = .lparen :: rest := by
  obtain ⟨pending, rest, hstack, hp⟩ := List.eq_append_cons_of_mem h
  exact ⟨rest, by simp only [unstack, hstack, (splits_isInner hp).dropWhile]⟩

theorem unstack_eq_nil {s : Conversion} (h : .lparen ∉ s.stack) :
    (s.unstack isInner).stack = [] := by
  have hsplit : Splits isInner s.stack [] :=
    ⟨fun t ht => isInner_iff.2 fun heq => h (heq ▸ ht), fun t ht => by cases ht⟩
  simpa [unstack] using hsplit.dropWhile

theorem Step.of_step {s s' : Conversion} {t : Token} {position : Nat}
    (h : s.step position t = .ok s') : Step s t s' := by
  obtain ⟨out, stack, due⟩ := s
  cases t with
  | number text =>
    obtain rfl := Except.ok.inj h
    exact .number out stack due text
  | func f =>
    obtain rfl := Except.ok.inj h
    exact .func out stack due f
  | lparen =>
    obtain rfl := Except.ok.inj h
    exact .lparen out stack due
  -- with the stack split first, it can be seen what is moved to the output
  | neg =>
    obtain ⟨pending, rest, rfl, hsplit⟩ := exists_splits (yields .neg) stack
    rw [step, unstack_of_splits hsplit] at h
    obtain rfl := Except.ok.inj h
    exact .neg out due hsplit
  | op o =>
    obtain ⟨pending, rest, rfl, hsplit⟩ := exists_splits (yields o.binding) stack
    cases due with
    | true => simp [step] at h
    | false =>
      rw [step, unstack_of_splits hsplit] at h
      obtain rfl := Except.ok.inj h
      exact .op out o hsplit
  | comma =>
    by_cases hmem : .lparen ∈ stack
    · obtain ⟨pending, rest, rfl, hp⟩ := List.eq_append_cons_of_mem hmem
      rw [step, unstack_of_splits (splits_isInner hp)] at h
      obtain rfl := Except.ok.inj h
      exact .comma out due hp
    · simp [step, unstack_eq_nil (s := ⟨out, stack, due⟩) hmem] at h
  | rparen =>
    cases due with
    | true => simp [step] at h
    | false =>
      by_cases hmem : .lparen ∈ stack
      · obtain ⟨pending, rest, rfl, hp⟩ := List.eq_append_cons_of_mem hmem
        rw [step, unstack_of_splits (splits_isInner hp)] at h
        by_cases hcall : ∃ f, rest.head? = some (.func f)
        · obtain ⟨f, hf⟩ := hcall
          obtain ⟨rest, rfl⟩ := List.head?_eq_some_iff.1 hf
          obtain rfl := Except.ok.inj h
          exact .rparenCall out f hp
        · have hrest := not_exists.1 hcall
          rw [if_neg Bool.false_ne_true, closeGroup_lparen _ _ hrest] at h
          obtain rfl := Except.ok.inj h
          exact .rparen out hp hrest
      · simp [step, closeGroup, unstack_eq_nil (s := ⟨out, stack, false⟩) hmem] at h

theorem step_eq_ok_iff {s s' : Conversion} {t : Token} {position : Nat} :
    s.step position t = .ok s' ↔ Step s t s' :=
  ⟨Step.of_step, fun h => h.step_eq position⟩

/-! ### Several tokens -/

/-- Reading the tokens takes the first conversion to the second. -/
inductive Path (s : Conversion) : List Token → Conversion → Prop
  /-- Nothing is read. -/
  | nil : Path s [] s
  /-- One token more is read. -/
  | snoc {ts : List Token} {s' s'' : Conversion} {t : Token} :
    Path s ts s' → Step s' t s'' → Path s (ts ++ [t]) s''

theorem Path.single {s s' : Conversion} {t : Token} (h : Step s t s') : Path s [t] s' :=
  Path.nil.snoc h

theorem Path.append {s s' s'' : Conversion} {ts us : List Token} (h : Path s ts s')
    (h' : Path s' us s'') : Path s (ts ++ us) s'' := by
  induction h' with
  | nil => simpa using h
  | snoc _ hst ih =>
    rw [← List.append_assoc]
    exact ih.snoc hst

theorem Path.cons {s s' s'' : Conversion} {t : Token} {ts : List Token} (h : Step s t s')
    (h' : Path s' ts s'') : Path s (t :: ts) s'' :=
  (Path.single h).append h'

theorem run_cons (s : Conversion) (position : Nat) (t : Token) (ts : List Token) :
    s.run position (t :: ts) = (s.step position t).bind fun mid => mid.run (position + 1) ts :=
  rfl

theorem run_cons_eq_ok_iff {s s' : Conversion} {t : Token} {ts : List Token} {position : Nat} :
    s.run position (t :: ts) = .ok s' ↔
      ∃ mid, Step s t mid ∧ mid.run (position + 1) ts = .ok s' := by
  simp only [run_cons, bind_eq_ok_iff, step_eq_ok_iff]

theorem run_eq_ok_iff {s s' : Conversion} {ts : List Token} {position : Nat} :
    s.run position ts = .ok s' ↔ Path s ts s' := by
  -- a run goes on from its first token, a path ends with its last one
  constructor
  · intro h
    induction ts generalizing s position with
    | nil =>
      obtain rfl := Except.ok.inj h
      exact .nil
    | cons t ts ih =>
      obtain ⟨mid, hst, hrun⟩ := run_cons_eq_ok_iff.1 h
      exact .cons hst (ih hrun)
  · intro h
    induction h with
    | nil => rfl
    | snoc _ hst ih =>
      rw [run_append, bind_eq_ok_iff]
      exact ⟨_, ih, run_cons_eq_ok_iff.2 ⟨_, hst, rfl⟩⟩

/-- What holds at the start and is kept by each token holds after all tokens.  It need be kept
only by what there is: without commas, and without a minus sign right after a function. -/
theorem Path.invariant {I : List Token → Conversion → Prop} {s : Conversion} {ts : List Token}
    (h : Path {} ts s) (hnil : I [] {})
    (hstep : ∀ {ts s s' t}, I ts s → Step s t s' → t ≠ .comma →
      (t = .neg → ∀ f, ts.getLast? ≠ some (.func f)) → I (ts ++ [t]) s')
    (hcomma : .comma ∉ ts) (hneg : ∀ f us vs, ts ≠ us ++ .func f :: .neg :: vs) : I ts s := by
  induction h with
  | nil => exact hnil
  | @snoc ts s' s'' t _ hst ih =>
    have hts : I ts s' := by
      refine ih (fun hmem => hcomma (by simp [hmem])) fun f us vs heq => ?_
      exact hneg f us (vs ++ [t]) (by simp [heq])
    refine hstep hts hst (fun ht => hcomma (by simp [ht])) fun ht f hf => ?_
    obtain ⟨us, rfl⟩ := List.getLast?_eq_some_iff.1 hf
    exact hneg f us [] (by simp [ht])

theorem Path.split {s s'' : Conversion} {ts us : List Token} (h : Path s (ts ++ us) s'') :
    ∃ s', Path s ts s' ∧ Path s' us s'' := by
  have hrun : s.run 0 (ts ++ us) = .ok s'' := run_eq_ok_iff.2 h
  rw [run_append, bind_eq_ok_iff] at hrun
  obtain ⟨s', hts, hus⟩ := hrun
  exact ⟨s', run_eq_ok_iff.1 hts, run_eq_ok_iff.1 hus⟩

theorem Path.of_concat {s s'' : Conversion} {ts : List Token} {t : Token}
    (h : Path s (ts ++ [t]) s'') : ∃ s', Path s ts s' ∧ Step s' t s'' := by
  obtain ⟨s', hts, ht⟩ := h.split
  have hrun : s'.run 0 [t] = .ok s'' := run_eq_ok_iff.2 ht
  obtain ⟨mid, hst, hnil⟩ := run_cons_eq_ok_iff.1 hrun
  obtain rfl : mid = s'' := Except.ok.inj hnil
  exact ⟨s', hts, hst⟩

/-- Tokens lead to one conversion only. -/
theorem Path.unique {s a b : Conversion} {ts : List Token} (h : Path s ts a) (h' : Path s ts b) :
    a = b := by
  have hrun : s.run 0 ts = .ok a := run_eq_ok_iff.2 h
  exact Except.ok.inj (hrun.symm.trans (run_eq_ok_iff.2 h'))

theorem Path.append_iff {s mid s' : Conversion} {ts us : List Token} (h : Path s ts mid) :
    Path s (ts ++ us) s' ↔ Path mid us s' := by
  refine ⟨fun h' => ?_, h.append⟩
  obtain ⟨mid', hts, hus⟩ := h'.split
  rwa [h.unique hts]

/-! ### The whole conversion -/

theorem all_isInner_iff {stack : List Token} : stack.all isInner = true ↔ .lparen ∉ stack := by
  simp only [List.all_eq_true, isInner_iff]
  exact ⟨fun h hmem => h _ hmem rfl, fun h t ht hlp => h (hlp ▸ ht)⟩

theorem finish_eq_ok_iff {s : Conversion} {r : List Token} :
    s.finish = .ok r ↔ s.operandDue = false ∧ .lparen ∉ s.stack ∧ r = s.output ++ s.stack := by
  simp only [finish, all_isInner_iff]
  by_cases hdue : s.operandDue = true
  · simp [hdue]
  · by_cases hmem : .lparen ∈ s.stack
    · simp [hdue, hmem]
    · simp [hdue, hmem, eq_comm]

end Conversion

open Conversion

theorem ofTokens_eq_bind {ts : List Token} (h : ts ≠ []) :
    ofTokens ts = (({} : Conversion).run 0 ts).bind finish := by
  rw [ofTokens, if_neg (by simpa using h)]
  rfl

/-- The tokens have an RPN when reading them ends after an operand with no group open; the RPN is
what was written and then what waits. -/
theorem ofTokens_eq_ok_iff {ts r : List Token} :
    ofTokens ts = .ok r ↔
      ∃ s, Path {} ts s ∧ s.operandDue = false ∧ .lparen ∉ s.stack ∧ r = s.output ++ s.stack := by
  by_cases hnil : ts = []
  · subst hnil
    refine ⟨fun h => (by cases h), fun ⟨s, hpath, hdue, _⟩ => ?_⟩
    have hrun : run {} 0 [] = .ok s := run_eq_ok_iff.2 hpath
    obtain rfl := Except.ok.inj hrun
    cases hdue
  · simp only [ofTokens_eq_bind hnil, bind_eq_ok_iff, run_eq_ok_iff, finish_eq_ok_iff]

/-! ### Refusals -/

namespace Conversion

/-- The token with the given position is refused with the error. -/
inductive RefusedWith (s : Conversion) (position : Nat) : Token → SyntaxError → Prop
  /-- A binary operator stands where an operand is due. -/
  | misplaced (o : BinOp) :
    s.operandDue = true → RefusedWith s position (.op o) (.misplaced position)
  /-- A comma stands outside all groups. -/
  | strayComma : .lparen ∉ s.stack → RefusedWith s position .comma .strayComma
  /-- A group ends where an operand is due. -/
  | incomplete : s.operandDue = true → RefusedWith s position .rparen .incomplete
  /-- There is no group to end. -/
  | unmatched :
    s.operandDue = false → .lparen ∉ s.stack → RefusedWith s position .rparen .unmatched

theorem closeGroup_eq_error {s : Conversion} {error : SyntaxError}
    (h : s.closeGroup = .error error) :
    error = .unmatched ∧ ∀ rest, s.stack ≠ .lparen :: rest := by
  unfold closeGroup at h
  split at h
  · cases h
  · cases h
  · rename_i hstack
    exact ⟨(Except.error.inj h).symm, hstack⟩

section

variable {s : Conversion} {position : Nat} {t : Token} {error : SyntaxError}

theorem RefusedWith.step_eq (h : RefusedWith s position t error) :
    s.step position t = .error error := by
  cases h with
  | misplaced o hdue => simp [step, hdue]
  | strayComma hmem => simp [step, unstack_eq_nil hmem]
  | incomplete hdue => simp [step, hdue]
  | unmatched hdue hmem => simp [step, closeGroup, hdue, unstack_eq_nil hmem]

theorem RefusedWith.of_step (h : s.step position t = .error error) :
    RefusedWith s position t error := by
  cases t with
  | number | func | lparen | neg => cases h
  | op o =>
    simp only [step] at h
    split at h
    · obtain rfl := Except.error.inj h
      exact .misplaced o ‹_›
    · cases h
  | comma =>
    simp only [step] at h
    split at h
    · rename_i hempty
      obtain rfl := Except.error.inj h
      refine .strayComma fun hmem => ?_
      obtain ⟨rest, hrest⟩ := exists_unstack_eq_cons hmem
      simp [hrest] at hempty
    · cases h
  | rparen =>
    simp only [step] at h
    split at h
    · obtain rfl := Except.error.inj h
      exact .incomplete ‹_›
    · rename_i hdue
      obtain ⟨rfl, hstack⟩ := closeGroup_eq_error h
      refine .unmatched (Bool.eq_false_iff.2 hdue) fun hmem => ?_
      obtain ⟨rest, hrest⟩ := exists_unstack_eq_cons hmem
      exact hstack rest hrest

theorem step_eq_error_iff : s.step position t = .error error ↔ RefusedWith s position t error :=
  ⟨RefusedWith.of_step, RefusedWith.step_eq⟩

theorem run_cons_eq_error_iff {ts : List Token} :
    s.run position (t :: ts) = .error error ↔
      RefusedWith s position t error ∨
        ∃ mid, Step s t mid ∧ mid.run (position + 1) ts = .error error := by
  simp only [run_cons, bind_eq_error_iff, step_eq_error_iff, step_eq_ok_iff]

/-- A run is refused at the first token that is. -/
theorem run_eq_error_iff {ts : List Token} :
    s.run position ts = .error error ↔
      ∃ us t vs s', ts = us ++ t :: vs ∧ Path s us s' ∧
        RefusedWith s' (position + us.length) t error := by
  constructor
  · intro h
    induction ts generalizing s position with
    | nil => cases h
    | cons t ts ih =>
      rcases run_cons_eq_error_iff.1 h with hrefused | ⟨mid, hst, hrest⟩
      · exact ⟨[], t, ts, s, rfl, .nil, hrefused⟩
      · obtain ⟨us, u, vs, s', rfl, hpath, hrefused⟩ := ih hrest
        refine ⟨t :: us, u, vs, s', rfl, .cons hst hpath, ?_⟩
        rwa [List.length_cons, ← Nat.add_assoc, Nat.add_right_comm]
  · rintro ⟨us, t, vs, s', rfl, hpath, hrefused⟩
    rw [run_append, bind_eq_error_iff]
    exact .inr ⟨s', run_eq_ok_iff.2 hpath, run_cons_eq_error_iff.2 (.inl hrefused)⟩

theorem finish_eq_error_iff :
    s.finish = .error error ↔
      s.operandDue = true ∧ error = .incomplete ∨
        s.operandDue = false ∧ .lparen ∈ s.stack ∧ error = .unmatched := by
  simp only [finish, all_isInner_iff]
  by_cases hdue : s.operandDue = true
  · simp [hdue, eq_comm]
  · by_cases hmem : .lparen ∈ s.stack
    · simp [hdue, hmem, eq_comm]
    · simp [hdue, hmem]

end

end Conversion

/-- Conversion fails over no tokens at all, over the first token that is refused, or at the end. -/
theorem ofTokens_eq_error_iff {ts : List Token} {error : SyntaxError} :
    ofTokens ts = .error error ↔
      ts = [] ∧ error = .empty ∨
        (∃ us t vs s, ts = us ++ t :: vs ∧ Path {} us s ∧ RefusedWith s us.length t error) ∨
          ts ≠ [] ∧ ∃ s, Path {} ts s ∧ s.finish = .error error := by
  by_cases hnil : ts = []
  · subst hnil
    simp [ofTokens, eq_comm]
  · simp [ofTokens_eq_bind hnil, bind_eq_error_iff, run_eq_error_iff, run_eq_ok_iff, hnil]

end PocketCalc.Rpn
