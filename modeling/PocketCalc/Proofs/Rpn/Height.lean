import PocketCalc.Expr.Value
import PocketCalc.Proofs.Rpn.Balance

/-!
# The RPN of tokens finds all its operands

How many values are on the stack can be told without evaluating: an operation takes as many as its
arity says and puts one back (`height`).  If that number is known all along, evaluation fails over
the first number that cannot be read (`evalFrom_of_unread`), and otherwise it can fail only over
values left at the end (`eval_error_of_height`).

An operator moves tokens to the output only when an operand has just ended, and then there is a
value for each operator that waits and one more (`Fed`).  Two tokens could be at odds with this, a
comma and a minus sign, which move tokens while an operand is due.  Without commas, and without a
minus sign right after a function, the RPN therefore has a height (`exists_height_ofTokens`).

Main statements: `exists_height_ofTokens`, `eval_error_of_height`.
-/

namespace PocketCalc

/-- The number of values that a token takes from the stack. -/
def Token.arity (t : Token) : Nat := (t.binding?.map Binding.arity).getD 0

/-- The text of a number that cannot be read. -/
def Token.unread? : Token → Option (List Char)
  | number text => if (Binary64.Numeral.read? text).isSome then none else some text
  | _ => none

namespace Rpn

open Token

/-- The height of a stack of `n` values after a number or operation; none if this takes more values
than there are. -/
def heightStep (n : Nat) (t : Token) : Option Nat :=
  if t.arity ≤ n then some (n - t.arity + 1) else none

/-- The height of a stack of `n` values after numbers and operations. -/
def height (n : Nat) (ts : List Token) : Option Nat := ts.foldlM heightStep n

theorem height_append (n : Nat) (ts us : List Token) :
    height n (ts ++ us) = (height n ts).bind fun m => height m us :=
  List.foldlM_append

/-! ### Heights and evaluation -/

theorem arity_op (o : BinOp) : (op o).arity = 2 := by cases o <;> rfl

theorem exists_number_of_unread? {t : Token} {text : List Char} (h : t.unread? = some text) :
    t = .number text ∧ Binary64.Numeral.read? text = none := by
  cases t with
  | number text' =>
    simp only [unread?] at h
    split at h
    · cases h
    · rename_i hread
      obtain rfl := Option.some.inj h
      exact ⟨rfl, by simpa using hread⟩
  | op | neg | func | lparen | rparen | comma => cases h

/-- A number or operation that the height allows can fail only over the text of a number. -/
theorem exists_evalStep_of_heightStep {stack : List Float} {t : Token} {n : Nat}
    (ht : isWritten t = true) (hread : t.unread? = none) (h : heightStep stack.length t = some n) :
    ∃ stack', evalStep stack t = .ok stack' ∧ stack'.length = n := by
  obtain ⟨harity, rfl⟩ : t.arity ≤ stack.length ∧ stack.length - t.arity + 1 = n := by
    simpa [heightStep] using h
  cases t with
  | number text =>
    have hne : Binary64.Numeral.read? text ≠ none := by simpa [unread?] using hread
    obtain ⟨v, hv⟩ := Option.ne_none_iff_exists'.1 hne
    exact ⟨v :: stack, by simp [evalStep, hv], rfl⟩
  | neg =>
    obtain ⟨x, rest, rfl⟩ := List.exists_cons_of_length_pos harity
    exact ⟨-x :: rest, rfl, rfl⟩
  | func f =>
    obtain ⟨x, rest, rfl⟩ := List.exists_cons_of_length_pos harity
    exact ⟨f.apply x :: rest, rfl, rfl⟩
  | op o =>
    rw [arity_op] at harity ⊢
    obtain ⟨b, below, rfl⟩ := List.exists_cons_of_length_pos (Nat.zero_lt_of_lt harity)
    obtain ⟨a, rest, rfl⟩ := List.exists_cons_of_length_pos (Nat.le_of_succ_le_succ harity)
    exact ⟨o.apply a b :: rest, rfl, rfl⟩
  | lparen | rparen | comma => cases ht

theorem exists_evalFrom_of_height {stack : List Float} {ts : List Token} {n : Nat}
    (hts : ∀ t ∈ ts, isWritten t = true) (hread : ∀ t ∈ ts, t.unread? = none)
    (h : height stack.length ts = some n) :
    ∃ stack', evalFrom stack ts = .ok stack' ∧ stack'.length = n := by
  induction ts generalizing stack with
  | nil => exact ⟨stack, rfl, Option.some.inj h⟩
  | cons t ts ih =>
    obtain ⟨ht, hts⟩ := List.forall_mem_cons.1 hts
    obtain ⟨htext, hread⟩ := List.forall_mem_cons.1 hread
    obtain ⟨m, hm, hn⟩ := Option.bind_eq_some_iff.1 h
    obtain ⟨mid, hmid, rfl⟩ := exists_evalStep_of_heightStep ht htext hm
    obtain ⟨stack', hend, hlen⟩ := ih hts hread hn
    exact ⟨stack', evalFrom_cons_eq_ok_iff.2 ⟨mid, hmid, hend⟩, hlen⟩

/-- Evaluation of RPN with a height fails over the first number that cannot be read. -/
theorem evalFrom_of_unread {stack : List Float} {ts : List Token} {n : Nat} {text : List Char}
    (hts : ∀ t ∈ ts, isWritten t = true) (h : height stack.length ts = some n)
    (htext : ts.findSome? unread? = some text) :
    evalFrom stack ts = .error (.badNumber text) := by
  obtain ⟨us, t, vs, rfl, ht, hus⟩ := List.findSome?_eq_some_iff.1 htext
  obtain ⟨rfl, hnone⟩ := exists_number_of_unread? ht
  rw [height_append] at h
  obtain ⟨m, hm, -⟩ := Option.bind_eq_some_iff.1 h
  obtain ⟨mid, hmid, -⟩ :=
    exists_evalFrom_of_height (fun u hu => hts u (List.mem_append_left _ hu)) hus hm
  rw [evalFrom_append, bind_eq_error_iff]
  refine .inr ⟨mid, hmid, evalFrom_cons_eq_error_iff.2 (.inl ?_)⟩
  simp [evalStep, hnone]

/-- Evaluation of RPN with a height fails only over the text of a number or over the number of
values left. -/
theorem eval_error_of_height {ts : List Token} {n : Nat} {error : EvalError}
    (hts : ∀ t ∈ ts, isWritten t = true) (hn : height 0 ts = some n)
    (h : eval ts = .error error) : (∃ text, error = .badNumber text) ∨ error = .leftover n := by
  have hempty : height ([] : List Float).length ts = some n := hn
  cases hfind : ts.findSome? unread? with
  | some text =>
    have heval : eval ts = .error (.badNumber text) :=
      eval_eq_error_iff.2 (.inl (evalFrom_of_unread hts hempty hfind))
    exact .inl ⟨text, Except.error.inj (h.symm.trans heval)⟩
  | none =>
    obtain ⟨stack, hstack, rfl⟩ :=
      exists_evalFrom_of_height hts (List.findSome?_eq_none_iff.1 hfind) hempty
    rcases eval_eq_error_iff.1 h with hfrom | ⟨stack', hstack', -, rfl⟩
    · rw [hstack] at hfrom
      cases hfrom
    · obtain rfl := Except.ok.inj (hstack.symm.trans hstack')
      exact .inr rfl

/-! ### Heights and conversion -/

theorem arity_le (t : Token) : t.arity ≤ 1 + if isBinary t then 1 else 0 := by
  cases t with
  | op o => exact Nat.le_of_eq (arity_op o)
  | neg | func => exact Nat.le_refl 1
  | number | lparen | rparen | comma => exact Nat.zero_le _

/-- Tokens with enough values under them have a height: only binary operators take a value away. -/
theorem exists_height_of_countP_lt {n : Nat} {ts : List Token} (h : ts.countP isBinary < n) :
    ∃ m, height n ts = some m ∧ n ≤ m + ts.countP isBinary := by
  induction ts generalizing n with
  | nil => exact ⟨n, rfl, Nat.le_refl n⟩
  | cons t ts ih =>
    rw [List.countP_cons] at h ⊢
    have harity := arity_le t
    generalize (if isBinary t = true then 1 else 0) = taken at h harity ⊢
    have hstep : heightStep n t = some (n - t.arity + 1) := if_pos (by omega)
    have hrest : ts.countP isBinary < n - t.arity + 1 := by omega
    obtain ⟨m, hm, hle⟩ := ih hrest
    refine ⟨m, ?_, by omega⟩
    rw [height, List.foldlM_cons, hstep]
    exact hm

namespace Conversion

/-- What was written leaves a value for each operator that waits, and one more unless an operand is
due. -/
def Feeds (due : Bool) (output stack : List Token) : Prop :=
  ∃ n, height 0 output = some n ∧ stack.countP isBinary + (if due then 0 else 1) ≤ n

section

variable {due : Bool} {out stack pending rest : List Token}

theorem Feeds.number (h : Feeds due out stack) (text : List Char) :
    Feeds false (out ++ [.number text]) stack := by
  obtain ⟨n, hn, hle⟩ := h
  refine ⟨n + 1, ?_, ?_⟩
  · rw [height_append, hn]
    rfl
  · simp only [Bool.false_eq_true, if_false]
    omega

/-- Whatever waits besides operators needs no value of its own. -/
theorem Feeds.push {t : Token} (h : Feeds due out stack) (ht : isBinary t = false) :
    Feeds true out (t :: stack) := by
  obtain ⟨n, hn, hle⟩ := h
  refine ⟨n, hn, ?_⟩
  rw [List.countP_cons_of_neg (by simp [ht]), if_pos rfl]
  omega

theorem Feeds.op (h : Feeds false out stack) (o : BinOp) : Feeds true out (.op o :: stack) := by
  obtain ⟨n, hn, hle⟩ := h
  refine ⟨n, hn, ?_⟩
  rw [List.countP_cons_of_pos rfl, if_pos rfl]
  exact hle

/-- After an operand there are values enough for all that waits. -/
theorem Feeds.unstack (h : Feeds false out (pending ++ rest)) :
    Feeds false (out ++ pending) rest := by
  obtain ⟨n, hn, hle⟩ := h
  simp only [List.countP_append, Bool.false_eq_true, if_false] at hle
  have hlt : pending.countP isBinary < n := by omega
  obtain ⟨m, hm, hnm⟩ := exists_height_of_countP_lt hlt
  refine ⟨m, ?_, ?_⟩
  · rw [height_append, hn]
    exact hm
  · simp only [Bool.false_eq_true, if_false]
    omega

theorem Feeds.pop {t : Token} (h : Feeds due out (t :: stack)) : Feeds due out stack := by
  obtain ⟨n, hn, hle⟩ := h
  rw [List.countP_cons] at hle
  exact ⟨n, hn, by omega⟩

end

section

variable {ts : List Token} {s s' : Conversion} {t : Token}

/-- Tokens wait for no more values than have been written, and while an operand is due, a function
on top of the stack is the token read last. -/
structure Fed (ts : List Token) (s : Conversion) : Prop where
  /-- There are values enough. -/
  feeds : Feeds s.operandDue s.output s.stack
  /-- A function that was read before the last token has an operand. -/
  top : s.operandDue = true → ∀ f, s.stack.head? = some (.func f) → ts.getLast? = some (.func f)

theorem fed_nil : Fed [] {} := ⟨⟨0, rfl, Nat.le_refl 0⟩, fun _ f hf => by cases hf⟩

/-- A minus sign moves functions only, and while an operand is due it finds none. -/
theorem Fed.pending_eq_nil {pending rest out : List Token}
    (h : Fed ts ⟨out, pending ++ rest, true⟩) (hsplit : Splits (yields .neg) pending rest)
    (hlast : ∀ f, ts.getLast? ≠ some (.func f)) : pending = [] := by
  cases pending with
  | nil => rfl
  | cons t pending =>
    have hyields := hsplit.1 t List.mem_cons_self
    cases t with
    | func f => exact absurd (h.top rfl f rfl) (hlast f)
    | op o => cases o <;> cases hyields
    | number | neg | lparen | rparen | comma => cases hyields

theorem Fed.step (h : Fed ts s) (hst : Step s t s') (hcomma : t ≠ .comma)
    (hneg : t = .neg → ∀ f, ts.getLast? ≠ some (.func f)) : Fed (ts ++ [t]) s' := by
  have hfeeds := h.feeds
  cases hst with
  | number out stack due text => exact ⟨hfeeds.number text, fun hdue => by cases hdue⟩
  | func out stack due f =>
    refine ⟨hfeeds.push rfl, fun _ g hg => ?_⟩
    simpa using hg
  | lparen out stack due => exact ⟨hfeeds.push rfl, fun _ f hf => by cases hf⟩
  | @neg pending rest out due hsplit =>
    refine ⟨?_, fun _ f hf => by cases hf⟩
    cases due with
    | true =>
      obtain rfl := h.pending_eq_nil hsplit (hneg rfl)
      rw [List.append_nil]
      exact hfeeds.push rfl
    | false => exact hfeeds.unstack.push rfl
  | op out o hsplit => exact ⟨hfeeds.unstack.op o, fun _ f hf => by cases hf⟩
  | comma out due hp => exact absurd rfl hcomma
  | rparen out hp _ => exact ⟨hfeeds.unstack.pop, fun hdue => by cases hdue⟩
  | @rparenCall pending rest out f hp =>
    refine ⟨?_, fun hdue => by cases hdue⟩
    have hcall : Feeds false (out ++ pending) ([.func f] ++ rest) := hfeeds.unstack.pop
    exact hcall.unstack

end

end Conversion

open Conversion

/-- The RPN of tokens without a comma, and without a minus sign right after a function, has a
height, and leaves a value. -/
theorem exists_height_ofTokens {ts r : List Token} (hcomma : .comma ∉ ts)
    (hneg : ∀ f us vs, ts ≠ us ++ .func f :: .neg :: vs) (hr : ofTokens ts = .ok r) :
    ∃ n, height 0 r = some n ∧ 0 < n := by
  obtain ⟨s, hpath, hdue, -, rfl⟩ := ofTokens_eq_ok_iff.1 hr
  have hfeeds := (hpath.invariant fed_nil Fed.step hcomma hneg).feeds
  rw [hdue, ← List.append_nil s.stack] at hfeeds
  obtain ⟨n, hn, hle⟩ := hfeeds.unstack
  exact ⟨n, hn, hle⟩

end Rpn

end PocketCalc
