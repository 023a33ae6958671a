import PocketCalc.Proofs.Rpn.Gaps

/-!
# Which tokens have an RPN

Whether tokens have an RPN, and with which error they are refused if not, can be told from left to
right without a stack.  It takes the token right before and the numbers of parentheses opened and
closed so far: an operand is due unless one has just ended (`Path.operandDue_eq`), and on the stack
there are as many opening parentheses as there are groups open (`Path.count_lparen`).  So a token is
refused exactly if it breaks a rule of this reading (`Path.refusedWith_iff`), and the first
violation decides (`ofTokens_eq_error_iff_firstViolation`).

Main statement: `ofTokens_accepts_and_refuses_iff`.
-/

namespace PocketCalc.Rpn

open Token Conversion

/-! ### The rules -/

/-- Each token stands where it can, and no parenthesis is without a partner. -/
structure WellPlaced (ts : List Token) : Prop where
  /-- There are tokens. -/
  ne_nil : ts ≠ []
  /-- An operator and a closing parenthesis come right after an operand. -/
  after : ∀ us t vs, ts = us ++ t :: vs → t.followsOperand = true →
    us.getLast?.any endsOperand = true
  /-- The last token ends an operand. -/
  last : ts.getLast?.any endsOperand = true
  /-- No beginning closes more parentheses than it opens. -/
  balanced : ∀ us, us <+: ts → us.count .rparen ≤ us.count .lparen
  /-- All parentheses are closed in the end. -/
  closed : ts.count .rparen = ts.count .lparen
  /-- A comma stands inside a group. -/
  comma : ∀ us vs, ts = us ++ .comma :: vs → us.count .rparen < us.count .lparen

/-- The token breaks a rule right after the tokens `before`, and this is the error. -/
inductive Violates (before : List Token) : Token → SyntaxError → Prop
  /-- A binary operator does not come after an operand. -/
  | misplaced (o : BinOp) : before.getLast?.any endsOperand = false →
    Violates before (.op o) (.misplaced before.length)
  /-- A closing parenthesis does not come after an operand. -/
  | incomplete : before.getLast?.any endsOperand = false → Violates before .rparen .incomplete
  /-- A closing parenthesis comes after an operand, but no group is open. -/
  | unmatched : before.getLast?.any endsOperand = true →
    before.count .lparen ≤ before.count .rparen → Violates before .rparen .unmatched
  /-- A comma stands outside all groups. -/
  | strayComma : before.count .lparen ≤ before.count .rparen → Violates before .comma .strayComma

/-- No token breaks a rule. -/
def Orderly (ts : List Token) : Prop :=
  ∀ us t vs, ts = us ++ t :: vs → ∀ error, ¬ Violates us t error

/-- The first rule that is broken, from left to right and then at the end, has this error. -/
inductive FirstViolation (ts : List Token) : SyntaxError → Prop
  /-- There are no tokens. -/
  | empty : ts = [] → FirstViolation ts .empty
  /-- A token breaks a rule, and none before it does. -/
  | token {us vs : List Token} {t : Token} {error : SyntaxError} :
    ts = us ++ t :: vs → Orderly us → Violates us t error → FirstViolation ts error
  /-- The last token does not end an operand. -/
  | incomplete : ts ≠ [] → Orderly ts → ts.getLast?.any endsOperand = false →
    FirstViolation ts .incomplete
  /-- The last token ends an operand, but a parenthesis is not closed. -/
  | unmatched : Orderly ts → ts.getLast?.any endsOperand = true →
    ts.count .rparen ≠ ts.count .lparen → FirstViolation ts .unmatched

/-! ### What a conversion knows of the tokens read -/

namespace Conversion

theorem Step.count_lparen {s s' : Conversion} {t : Token} (h : Step s t s') :
    s'.stack.count .lparen + [t].count .rparen = s.stack.count .lparen + [t].count .lparen := by
  cases h with
  | number | func | lparen => simp
  | neg out due hsplit => simp [List.count_eq_zero.2 hsplit.lparen_not_mem]
  | op out o hsplit => simp [List.count_eq_zero.2 hsplit.lparen_not_mem]
  | comma out due hp => simp [List.count_eq_zero.2 hp]
  | rparen out hp _ => simp [List.count_eq_zero.2 hp]
  | rparenCall out f hp => simp [List.count_eq_zero.2 hp]

/-- The groups open are those whose parenthesis is on the stack. -/
theorem Path.count_lparen {ts : List Token} {s : Conversion} (h : Path {} ts s) :
    s.stack.count .lparen + ts.count .rparen = ts.count .lparen := by
  induction h with
  | nil => rfl
  | snoc _ hst ih =>
    have hstep := hst.count_lparen
    rw [List.count_append, List.count_append]
    omega

section

variable {ts : List Token} {s : Conversion} (h : Path {} ts s)

include h

theorem Path.lparen_not_mem_iff : .lparen ∉ s.stack ↔ ts.count .lparen ≤ ts.count .rparen := by
  have hcount := h.count_lparen
  rw [← List.count_eq_zero]
  omega

theorem Path.refusedWith_iff {t : Token} {error : SyntaxError} :
    RefusedWith s ts.length t error ↔ Violates ts t error := by
  have hdue : s.operandDue = true ↔ ts.getLast?.any endsOperand = false := by
    simp [h.operandDue_eq]
  have hended : s.operandDue = false ↔ ts.getLast?.any endsOperand = true := by
    simp [h.operandDue_eq]
  constructor
  · intro hrefused
    cases hrefused with
    | misplaced o hd => exact .misplaced o (hdue.1 hd)
    | strayComma hmem => exact .strayComma (h.lparen_not_mem_iff.1 hmem)
    | incomplete hd => exact .incomplete (hdue.1 hd)
    | unmatched hd hmem => exact .unmatched (hended.1 hd) (h.lparen_not_mem_iff.1 hmem)
  · intro hviolates
    cases hviolates with
    | misplaced o hlast => exact .misplaced o (hdue.2 hlast)
    | incomplete hlast => exact .incomplete (hdue.2 hlast)
    | unmatched hlast hcount =>
      exact .unmatched (hended.2 hlast) (h.lparen_not_mem_iff.2 hcount)
    | strayComma hcount => exact .strayComma (h.lparen_not_mem_iff.2 hcount)

end

/-- Tokens can all be read exactly if none of them breaks a rule. -/
theorem exists_path_iff {ts : List Token} : (∃ s, Path {} ts s) ↔ Orderly ts := by
  constructor
  · rintro ⟨s, hpath⟩ us t vs rfl error hviolates
    obtain ⟨s₁, hus, hvs⟩ := hpath.split
    have hrun : s₁.run us.length (t :: vs) = .ok s := run_eq_ok_iff.2 hvs
    obtain ⟨s₂, hst, -⟩ := run_cons_eq_ok_iff.1 hrun
    have herror := (hus.refusedWith_iff.2 hviolates).step_eq
    rw [hst.step_eq] at herror
    cases herror
  · intro h
    cases hrun : ({} : Conversion).run 0 ts with
    | ok s => exact ⟨s, run_eq_ok_iff.1 hrun⟩
    | error error =>
      obtain ⟨us, t, vs, s, rfl, hpath, hrefused⟩ := run_eq_error_iff.1 hrun
      rw [Nat.zero_add] at hrefused
      exact absurd (hpath.refusedWith_iff.1 hrefused) (h us t vs rfl error)

end Conversion

/-! ### Acceptance and refusal -/

theorem WellPlaced.orderly {ts : List Token} (h : WellPlaced ts) : Orderly ts := by
  rintro us t vs rfl error hviolates
  cases hviolates with
  | misplaced o hlast =>
    rw [h.after us _ vs rfl rfl] at hlast
    cases hlast
  | incomplete hlast =>
    rw [h.after us _ vs rfl rfl] at hlast
    cases hlast
  | unmatched _ hcount =>
    -- the beginning that ends with this parenthesis closes more than it opens
    have hle := h.balanced (us ++ [.rparen]) ⟨vs, by simp⟩
    have hclose : [Token.rparen].count .rparen = 1 ∧ [Token.rparen].count .lparen = 0 := by decide
    rw [List.count_append, List.count_append, hclose.1, hclose.2] at hle
    omega
  | strayComma hcount =>
    have hlt := h.comma us vs rfl
    omega

theorem Orderly.wellPlaced {ts : List Token} (h : Orderly ts)
    (hlast : ts.getLast?.any endsOperand = true) (hclosed : ts.count .rparen = ts.count .lparen) :
    WellPlaced ts where
  ne_nil := by
    rintro rfl
    cases hlast
  after := by
    rintro us t vs rfl ht
    by_contra hdue
    rw [Bool.not_eq_true] at hdue
    cases t with
    | op o => exact h us _ vs rfl _ (.misplaced o hdue)
    | rparen => exact h us _ vs rfl _ (.incomplete hdue)
    | number | neg | func | lparen | comma => cases ht
  last := hlast
  balanced := by
    rintro us ⟨vs, rfl⟩
    obtain ⟨s, hpath⟩ := exists_path_iff.2 h
    obtain ⟨s', hus, -⟩ := hpath.split
    have hcount := hus.count_lparen
    omega
  closed := hclosed
  comma := by
    rintro us vs rfl
    by_contra hcount
    exact h us _ vs rfl _ (.strayComma (Nat.le_of_not_lt hcount))

theorem exists_ofTokens_iff {ts : List Token} : (∃ r, ofTokens ts = .ok r) ↔ WellPlaced ts := by
  simp only [ofTokens_eq_ok_iff]
  constructor
  · rintro ⟨r, s, hpath, hdue, hmem, -⟩
    have hlast : ts.getLast?.any endsOperand = true := by simpa [hpath.operandDue_eq] using hdue
    have hcount := hpath.count_lparen
    rw [List.count_eq_zero.2 hmem, Nat.zero_add] at hcount
    exact (exists_path_iff.1 ⟨s, hpath⟩).wellPlaced hlast hcount
  · intro h
    obtain ⟨s, hpath⟩ := exists_path_iff.2 h.orderly
    refine ⟨_, s, hpath, ?_, ?_, rfl⟩
    · simp [hpath.operandDue_eq, h.last]
    · exact hpath.lparen_not_mem_iff.2 (Nat.le_of_eq h.closed.symm)

theorem finish_eq_error_iff_of_path {ts : List Token} {s : Conversion} (h : Path {} ts s)
    {error : SyntaxError} :
    s.finish = .error error ↔
      ts.getLast?.any endsOperand = false ∧ error = .incomplete ∨
        ts.getLast?.any endsOperand = true ∧ ts.count .rparen ≠ ts.count .lparen ∧
          error = .unmatched := by
  have hmem : .lparen ∈ s.stack ↔ ts.count .rparen ≠ ts.count .lparen := by
    have hcount := h.count_lparen
    have hiff := h.lparen_not_mem_iff
    rw [← not_iff_not, hiff]
    omega
  rw [finish_eq_error_iff, h.operandDue_eq, hmem]
  simp

theorem ofTokens_eq_error_iff_firstViolation {ts : List Token} {error : SyntaxError} :
    ofTokens ts = .error error ↔ FirstViolation ts error := by
  rw [ofTokens_eq_error_iff]
  constructor
  · rintro (⟨hnil, rfl⟩ | ⟨us, t, vs, s, hts, hpath, hrefused⟩ | ⟨hne, s, hpath, hfinish⟩)
    · exact .empty hnil
    · exact .token hts (exists_path_iff.1 ⟨s, hpath⟩) (hpath.refusedWith_iff.1 hrefused)
    · have horderly := exists_path_iff.1 ⟨s, hpath⟩
      rcases (finish_eq_error_iff_of_path hpath).1 hfinish with
        ⟨hlast, rfl⟩ | ⟨hlast, hcount, rfl⟩
      · exact .incomplete hne horderly hlast
      · exact .unmatched horderly hlast hcount
  · intro h
    cases h with
    | empty hnil => exact .inl ⟨hnil, rfl⟩
    | @token us vs t _ hts horderly hviolates =>
      obtain ⟨s, hpath⟩ := exists_path_iff.2 horderly
      exact .inr (.inl ⟨us, t, vs, s, hts, hpath, hpath.refusedWith_iff.2 hviolates⟩)
    | incomplete hne horderly hlast =>
      obtain ⟨s, hpath⟩ := exists_path_iff.2 horderly
      exact .inr (.inr ⟨hne, s, hpath, (finish_eq_error_iff_of_path hpath).2 (.inl ⟨hlast, rfl⟩)⟩)
    | unmatched horderly hlast hcount =>
      obtain ⟨s, hpath⟩ := exists_path_iff.2 horderly
      have hne : ts ≠ [] := by
        rintro rfl
        cases hlast
      exact .inr (.inr ⟨hne, s, hpath,
        (finish_eq_error_iff_of_path hpath).2 (.inr ⟨hlast, hcount, rfl⟩)⟩)

/-- **Conversion accepts and refuses as one reading from left to right does.**  Tokens have an RPN
exactly if each of them stands where it can and no parenthesis is without a partner; otherwise the
error is that of the first violation. -/
theorem ofTokens_accepts_and_refuses_iff (ts : List Token) :
    ((∃ r, ofTokens ts = .ok r) ↔ WellPlaced ts) ∧
      ∀ error, ofTokens ts = .error error ↔ FirstViolation ts error :=
  ⟨exists_ofTokens_iff, fun _ => ofTokens_eq_error_iff_firstViolation⟩

/-- An operator that is misplaced comes before the group that is not closed. -/
example : ofTokens [.lparen, .op .add, .number ['1']] = .error (.misplaced 1) := rfl

end PocketCalc.Rpn
