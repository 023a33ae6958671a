import PocketCalc.Proofs.Rpn.Steps
import PocketCalc.Rpn.Eval

/-!
# Numbers and operators through conversion and evaluation

Conversion loses no number and no operation and adds none: what was written and what waits are,
parentheses and commas apart, a rearrangement of the tokens read (`Path.perm`).  Evaluation leaves
as many values as there are more numbers than binary operators (`length_of_evalFrom`), and it fails
over one of the tokens or over the number of values left (`eval_eq_error_iff`).  Together:
tokens whose RPN has a value have one number more than binary operators
(`countP_isNumber_of_eval`).
-/

namespace PocketCalc

namespace Token

/-- Numbers and operations, as opposed to parentheses and commas. -/
def isWritten : Token → Bool
  | lparen | rparen | comma => false
  | _ => true

/-- A number. -/
def isNumber : Token → Bool
  | number _ => true
  | _ => false

/-- A binary operator. -/
def isBinary : Token → Bool
  | op _ => true
  | _ => false

end Token

namespace Rpn

open Token

namespace Conversion

theorem Step.perm {s s' : Conversion} {t : Token} (h : Step s t s') :
    ((s'.output ++ s'.stack).filter isWritten).Perm
      ((s.output ++ s.stack ++ [t]).filter isWritten) := by
  have hlast (l rest : List Token) (t : Token) : (l ++ t :: rest).Perm (l ++ rest ++ [t]) :=
    List.perm_middle.trans (List.perm_append_singleton _ _).symm
  cases h with
  | number out stack due text =>
    refine List.Perm.filter _ ?_
    simpa using hlast out stack (.number text)
  | func out stack due f => exact (hlast out stack (.func f)).filter _
  | lparen out stack due => simp [isWritten]
  | @neg pending rest out due h =>
    refine List.Perm.filter _ ?_
    simpa using hlast (out ++ pending) rest .neg
  | @op pending rest out o h =>
    refine List.Perm.filter _ ?_
    simpa using hlast (out ++ pending) rest (.op o)
  | comma out due h => simp [isWritten]
  | rparen out h hrest => simp [isWritten]
  | rparenCall out f h => simp [isWritten, List.filter_cons]

/-- What was written and what waits are a rearrangement of the tokens read. -/
theorem Path.perm {s s' : Conversion} {ts : List Token} (h : Path s ts s') :
    ((s'.output ++ s'.stack).filter isWritten).Perm
      ((s.output ++ s.stack ++ ts).filter isWritten) := by
  induction h with
  | nil => simp
  | @snoc ts s' s'' t _ hst ih =>
    refine hst.perm.trans ?_
    rw [List.filter_append, ← List.append_assoc, List.filter_append (s.output ++ s.stack ++ ts)]
    exact ih.append_right _

/-! ### Only numbers and operations are written -/

/-- What was written are numbers and operations; with operations only opening parentheses wait. -/
def Proper (output stack : List Token) : Prop :=
  (∀ t ∈ output, isWritten t = true) ∧ ∀ t ∈ stack, t ≠ .lparen → isWritten t = true

theorem proper_nil : Proper [] [] := ⟨fun u hu => (by cases hu), fun u hu => by cases hu⟩

section

variable {out stack pending rest : List Token} {t : Token}

theorem Proper.write (h : Proper out stack) (ht : isWritten t = true) :
    Proper (out ++ [t]) stack := by
  refine ⟨fun u hu => ?_, h.2⟩
  rcases List.mem_append.1 hu with hu | hu
  · exact h.1 u hu
  · rwa [List.mem_singleton.1 hu]

theorem Proper.push (h : Proper out stack) (ht : t ≠ .lparen → isWritten t = true) :
    Proper out (t :: stack) :=
  ⟨h.1, List.forall_mem_cons.2 ⟨ht, h.2⟩⟩

theorem Proper.pop (h : Proper out (t :: stack)) : Proper out stack :=
  ⟨h.1, (List.forall_mem_cons.1 h.2).2⟩

theorem Proper.unstack (h : Proper out (pending ++ rest)) (hp : .lparen ∉ pending) :
    Proper (out ++ pending) rest := by
  refine ⟨fun u hu => ?_, fun u hu => h.2 u (List.mem_append_right _ hu)⟩
  rcases List.mem_append.1 hu with hu | hu
  · exact h.1 u hu
  · refine h.2 u (List.mem_append_left _ hu) ?_
    rintro rfl
    exact hp hu

end

theorem Proper.step {s s' : Conversion} {t : Token} (h : Proper s.output s.stack)
    (hst : Step s t s') : Proper s'.output s'.stack := by
  cases hst with
  | number out stack due text => exact h.write rfl
  | func out stack due f => exact h.push fun _ => rfl
  | lparen out stack due => exact h.push fun hne => absurd rfl hne
  | neg out due hsplit => exact (h.unstack hsplit.lparen_not_mem).push fun _ => rfl
  | op out o hsplit => exact (h.unstack hsplit.lparen_not_mem).push fun _ => rfl
  | comma out due hp => exact h.unstack hp
  | rparen out hp _ => exact (h.unstack hp).pop
  | rparenCall out f hp => exact (h.unstack hp).pop.pop.write rfl

theorem Path.proper {s s' : Conversion} {ts : List Token} (h : Path s ts s')
    (hs : Proper s.output s.stack) : Proper s'.output s'.stack := by
  induction h with
  | nil => exact hs
  | snoc _ hst ih => exact ih.step hst

/-! ### Numbers that no operator needs -/

/-- The tokens read have `extra` numbers more than the operators among them need, a right operand
that is still due not counted. -/
def Surplus (extra : Nat) (ts : List Token) (s : Conversion) : Prop :=
  ts.countP isBinary + (if s.operandDue then 0 else 1) + extra ≤ ts.countP isNumber

/-- An operator stands after an operand, so that no token uses up a number that another one
needs. -/
theorem Surplus.step {extra : Nat} {ts : List Token} {s s' : Conversion} {t : Token}
    (h : Surplus extra ts s) (hst : Step s t s') : Surplus extra (ts ++ [t]) s' := by
  unfold Surplus at h ⊢
  rw [List.countP_append, List.countP_append]
  cases hst with
  | number out stack due text =>
    simp only [List.countP_singleton, isNumber, isBinary, Bool.false_eq_true, if_true, if_false]
    omega
  | func out stack due f | lparen out stack due | neg out due _ | comma out due _ =>
    simp only [List.countP_singleton, isNumber, isBinary, Bool.false_eq_true, if_true, if_false]
    omega
  | op out o _ | rparen out _ _ | rparenCall out f _ =>
    simpa [isNumber, isBinary] using h

theorem Surplus.path {extra : Nat} {ts us : List Token} {s s' : Conversion}
    (h : Surplus extra ts s) (hpath : Path s us s') : Surplus extra (ts ++ us) s' := by
  induction hpath with
  | nil => simpa using h
  | snoc _ hst ih => simpa using ih.step hst

/-- After an operand, a comma asks for another one, but no operator needs it. -/
theorem Surplus.comma {extra : Nat} {ts : List Token} {s s' : Conversion} (h : Surplus extra ts s)
    (hdue : s.operandDue = false) (hst : Step s .comma s') :
    Surplus (extra + 1) (ts ++ [.comma]) s' := by
  unfold Surplus at h ⊢
  cases hst with
  | comma out due _ =>
    obtain rfl : due = false := hdue
    simp only [List.countP_append, List.countP_singleton, isNumber, isBinary, Bool.false_eq_true,
      if_true, if_false] at h ⊢
    omega

end Conversion

open Conversion

/-- The RPN has as many tokens of each written kind as the tokens it was made from. -/
theorem countP_ofTokens {ts r : List Token} (h : ofTokens ts = .ok r) {p : Token → Bool}
    (hp : ∀ t, p t = true → isWritten t = true) : r.countP p = ts.countP p := by
  obtain ⟨s, hpath, -, -, rfl⟩ := ofTokens_eq_ok_iff.1 h
  have hfilter (l : List Token) : (l.filter isWritten).countP p = l.countP p := by
    rw [List.countP_filter]
    refine List.countP_congr fun t _ => ?_
    simpa using hp t
  rw [← hfilter, hpath.perm.countP_eq, hfilter]
  rfl

/-- The RPN consists of numbers and operations. -/
theorem isWritten_of_mem_ofTokens {ts r : List Token} (h : ofTokens ts = .ok r) {t : Token}
    (ht : t ∈ r) : isWritten t = true := by
  obtain ⟨s, hpath, -, hlparen, rfl⟩ := ofTokens_eq_ok_iff.1 h
  have hend : Proper s.output (s.stack ++ []) := by simpa using hpath.proper proper_nil
  exact (hend.unstack hlparen).1 t ht

/-! ### Evaluation -/

theorem evalFrom_cons_eq_ok_iff {stack stack' : List Float} {t : Token} {ts : List Token} :
    evalFrom stack (t :: ts) = .ok stack' ↔
      ∃ mid, evalStep stack t = .ok mid ∧ evalFrom mid ts = .ok stack' :=
  bind_eq_ok_iff

theorem evalFrom_cons_eq_error_iff {stack : List Float} {t : Token} {ts : List Token}
    {error : EvalError} :
    evalFrom stack (t :: ts) = .error error ↔
      evalStep stack t = .error error ∨
        ∃ mid, evalStep stack t = .ok mid ∧ evalFrom mid ts = .error error :=
  bind_eq_error_iff

theorem length_of_evalStep {stack stack' : List Float} {t : Token}
    (h : evalStep stack t = .ok stack') :
    stack'.length + (if isBinary t then 1 else 0) =
      stack.length + (if isNumber t then 1 else 0) := by
  unfold evalStep at h
  split at h
  · split at h
    · obtain rfl := Except.ok.inj h
      rfl
    · cases h
  · obtain rfl := Except.ok.inj h
    rfl
  · obtain rfl := Except.ok.inj h
    rfl
  · obtain rfl := Except.ok.inj h
    rfl
  all_goals cases h

/-- A number adds a value and a binary operator takes one away. -/
theorem length_of_evalFrom {stack stack' : List Float} {ts : List Token}
    (h : evalFrom stack ts = .ok stack') :
    stack'.length + ts.countP isBinary = stack.length + ts.countP isNumber := by
  induction ts generalizing stack with
  | nil =>
    obtain rfl := Except.ok.inj h
    rfl
  | cons t ts ih =>
    obtain ⟨mid, hst, hrest⟩ := evalFrom_cons_eq_ok_iff.1 h
    have hmid := length_of_evalStep hst
    have hend := ih hrest
    simp only [List.countP_cons]
    omega

/-- A number that is put on the stack has been read. -/
theorem exists_read?_of_evalFrom {stack stack' : List Float} {ts : List Token}
    (h : evalFrom stack ts = .ok stack') {text : List Char} (ht : .number text ∈ ts) :
    ∃ v, Binary64.Numeral.read? text = some v := by
  induction ts generalizing stack with
  | nil => cases ht
  | cons t ts ih =>
    obtain ⟨mid, hst, hrest⟩ := evalFrom_cons_eq_ok_iff.1 h
    rcases List.mem_cons.1 ht with rfl | ht
    · cases hread : Binary64.Numeral.read? text with
      | none => simp [evalStep, hread] at hst
      | some v => exact ⟨v, rfl⟩
    · exact ih hrest ht

/-- What a token can fail over. -/
theorem evalStep_eq_error_cases {stack : List Float} {t : Token} {error : EvalError}
    (h : evalStep stack t = .error error) :
    (∃ text, t = .number text ∧ error = .badNumber text) ∨ error = .stackEmpty t.text ∨
      isWritten t = false ∧ error = .notOperation t.text := by
  cases t with
  | number text =>
    simp only [evalStep] at h
    split at h
    · cases h
    · exact .inl ⟨text, rfl, (Except.error.inj h).symm⟩
  | neg | func =>
    cases stack with
    | nil => exact .inr (.inl (Except.error.inj h).symm)
    | cons => cases h
  | op =>
    rcases stack with _ | ⟨b, _ | ⟨a, rest⟩⟩
    · exact .inr (.inl (Except.error.inj h).symm)
    · exact .inr (.inl (Except.error.inj h).symm)
    · cases h
  | lparen | rparen | comma => exact .inr (.inr ⟨rfl, (Except.error.inj h).symm⟩)

theorem exists_evalStep_of_evalFrom {stack : List Float} {ts : List Token} {error : EvalError}
    (h : evalFrom stack ts = .error error) :
    ∃ t ∈ ts, ∃ stack', evalStep stack' t = .error error := by
  induction ts generalizing stack with
  | nil => cases h
  | cons t ts ih =>
    rcases evalFrom_cons_eq_error_iff.1 h with hst | ⟨mid, -, hrest⟩
    · exact ⟨t, List.mem_cons_self, stack, hst⟩
    · obtain ⟨u, hu, hst⟩ := ih hrest
      exact ⟨u, List.mem_cons_of_mem t hu, hst⟩

theorem result_eq_ok_iff {stack : List Float} {v : Float} : result stack = .ok v ↔ stack = [v] := by
  rcases stack with _ | ⟨w, _ | ⟨u, rest⟩⟩
  · simp [result]
  · simp [result]
  · simp [result]

theorem result_eq_error_iff {stack : List Float} {error : EvalError} :
    result stack = .error error ↔ stack.length ≠ 1 ∧ error = .leftover stack.length := by
  rcases stack with _ | ⟨v, _ | ⟨w, rest⟩⟩
  · simp [result, eq_comm]
  · simp [result]
  · simp [result, eq_comm]

theorem eval_eq_ok_iff {ts : List Token} {v : Float} :
    eval ts = .ok v ↔ evalFrom [] ts = .ok [v] := by
  have hbind : eval ts = .ok v ↔ ∃ stack, evalFrom [] ts = .ok stack ∧ result stack = .ok v :=
    bind_eq_ok_iff
  simp [hbind, result_eq_ok_iff]

/-- Evaluation fails over one of the tokens, or over the number of values left. -/
theorem eval_eq_error_iff {ts : List Token} {error : EvalError} :
    eval ts = .error error ↔
      evalFrom [] ts = .error error ∨
        ∃ stack, evalFrom [] ts = .ok stack ∧ stack.length ≠ 1 ∧
          error = .leftover stack.length := by
  have hbind : eval ts = .error error ↔
      evalFrom [] ts = .error error ∨
        ∃ stack, evalFrom [] ts = .ok stack ∧ result stack = .error error := bind_eq_error_iff
  simp only [hbind, result_eq_error_iff]

/-! ### Numbers and operators in what has a value -/

/-- If the RPN of tokens has a value, each number among the tokens can be read. -/
theorem exists_read?_of_eval {ts r : List Token} {v : Float} (hr : ofTokens ts = .ok r)
    (hv : eval r = .ok v) {text : List Char} (ht : .number text ∈ ts) :
    ∃ w, Binary64.Numeral.read? text = some w := by
  refine exists_read?_of_evalFrom (eval_eq_ok_iff.1 hv) ?_
  have hcount := countP_ofTokens hr (p := fun t => decide (t = .number text)) (by simp [isWritten])
  have hpos : 0 < ts.countP fun t => decide (t = .number text) :=
    List.countP_pos_iff.2 ⟨_, ht, decide_eq_true rfl⟩
  rw [← hcount] at hpos
  obtain ⟨t, hmem, heq⟩ := List.countP_pos_iff.1 hpos
  rwa [← of_decide_eq_true heq]

/-- Evaluation of the RPN of tokens leaves as many values as the tokens have more numbers than
binary operators. -/
theorem length_of_ofTokens {ts r : List Token} {stack : List Float} (hr : ofTokens ts = .ok r)
    (h : evalFrom [] r = .ok stack) :
    stack.length + ts.countP isBinary = ts.countP isNumber := by
  rw [← countP_ofTokens hr (p := isNumber) (by rintro (_ | _) <;> simp [isNumber, isWritten]),
    ← countP_ofTokens hr (p := isBinary) (by rintro (_ | _) <;> simp [isBinary, isWritten])]
  simpa using length_of_evalFrom h

theorem countP_isNumber_of_eval {ts r : List Token} {v : Float} (hr : ofTokens ts = .ok r)
    (hv : eval r = .ok v) : ts.countP isNumber = ts.countP isBinary + 1 := by
  rw [← length_of_ofTokens hr (eval_eq_ok_iff.1 hv)]
  exact Nat.add_comm _ _

end Rpn

end PocketCalc
