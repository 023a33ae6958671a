import PocketCalc.Proofs.Rpn.Acceptance
import PocketCalc.Proofs.Rpn.Order

/-!
# The order of the tokens that wait

What waits on the stack waits for its operands.  Inside each group no token lies on one that binds
more tightly, and only powers, minus signs and functions lie on their own kind (`LiesOn`).  For an
operator or a minus sign moves to the output what takes the operand before it, and it may lie on
anything else (`liesOn_of_yields_eq_false`).  A function moves nothing, but nothing binds more
tightly than a function (`liesOn_func`).  All other tokens take from the top of the stack only.

Main statement: `stackOrder_of_run`.
-/

namespace PocketCalc

namespace Token

/-- Operators, minus signs, functions and opening parentheses: what can wait on the stack. -/
def waits : Token → Bool
  | op _ | neg | func _ | lparen => true
  | number _ | rparen | comma => false

/-- The precedence of an operator, a minus sign or a function. -/
def precedence? (t : Token) : Option Nat := t.binding?.map Binding.precedence

/-- Both tokens are powers, both are minus signs, or both are functions. -/
inductive SameNesting : Token → Token → Prop
  | pow : SameNesting (.op .pow) (.op .pow)
  | neg : SameNesting .neg .neg
  | func (f g : Func) : SameNesting (.func f) (.func g)

end Token

namespace Rpn

open Token

namespace Conversion

/-- What waits, the last token first, after the tokens `ts` have been read. -/
structure StackOrder (ts stack : List Token) : Prop where
  /-- Operators, minus signs, functions and opening parentheses wait, and nothing else. -/
  waiting : ∀ t ∈ stack, t.waits = true
  /-- As many opening parentheses wait as groups are open. -/
  groups : stack.count .lparen + ts.count .rparen = ts.count .lparen
  /-- Between parentheses, precedences never decrease from the bottom to the top. -/
  ordered : ∀ group, group <:+: stack → .lparen ∉ group →
    (group.filterMap precedence?).Pairwise (· ≥ ·)
  /-- Neighbours of equal precedence are of a kind that nests. -/
  nested : stack.IsChain fun upper lower =>
    ∀ n ∈ upper.precedence?, n ∈ lower.precedence? → SameNesting upper lower

/-- The token `lower` may lie right below `upper`: it does not bind more tightly, and if it binds as
tightly, the two are of a kind that nests.  Nothing is asked of parentheses. -/
def LiesOn (upper lower : Token) : Prop :=
  ∀ m ∈ upper.precedence?, ∀ n ∈ lower.precedence?,
    n ≤ m ∧ (n = m → SameNesting upper lower)

/-! ### Precedences -/

section

variable {t u : Token} {n : Nat}

theorem precedence?_le_func (h : n ∈ t.precedence?) : n ≤ Binding.func.precedence := by
  cases t with
  | number | lparen | rparen | comma => cases h
  | op o => cases o <;> cases h <;> decide
  | neg | func =>
    cases h
    decide

/-- Powers, minus signs and functions bind more tightly than all other operators. -/
theorem cases_of_pow_le (h : n ∈ t.precedence?) (hpow : BinOp.pow.binding.precedence ≤ n) :
    t = .op .pow ∧ n = 3 ∨ t = .neg ∧ n = 4 ∨ ∃ f, t = .func f ∧ n = 5 := by
  cases t with
  | number | lparen | rparen | comma => cases h
  | op o =>
    obtain rfl := Option.some.inj h
    cases o with
    | pow => exact .inl ⟨rfl, rfl⟩
    | add | sub | mul | div => exact absurd hpow (by decide)
  | neg =>
    obtain rfl := Option.some.inj h
    exact .inr (.inl ⟨rfl, rfl⟩)
  | func f =>
    obtain rfl := Option.some.inj h
    exact .inr (.inr ⟨f, rfl, rfl⟩)

theorem sameNesting_of_pow_le (ht : n ∈ t.precedence?) (hu : n ∈ u.precedence?)
    (hpow : BinOp.pow.binding.precedence ≤ n) : SameNesting t u := by
  rcases cases_of_pow_le ht hpow with ⟨rfl, rfl⟩ | ⟨rfl, rfl⟩ | ⟨f, rfl, rfl⟩
  · rcases cases_of_pow_le hu hpow with ⟨rfl, -⟩ | ⟨-, h⟩ | ⟨-, -, h⟩
    · exact .pow
    · cases h
    · cases h
  · rcases cases_of_pow_le hu hpow with ⟨-, h⟩ | ⟨rfl, -⟩ | ⟨-, -, h⟩
    · cases h
    · exact .neg
    · cases h
  · rcases cases_of_pow_le hu hpow with ⟨-, h⟩ | ⟨-, h⟩ | ⟨g, rfl, -⟩
    · cases h
    · cases h
    · exact .func f g

/-- What groups from the right binds at least as tightly as a power. -/
theorem pow_le_of_right {b : Binding} (ht : t.binding? = some b) (h : b.grouping = .right) :
    BinOp.pow.binding.precedence ≤ b.precedence := by
  cases t with
  | number | lparen | rparen | comma => cases ht
  | op o =>
    obtain rfl := Option.some.inj ht
    cases o with
    | pow => exact Nat.le_refl _
    | add | sub | mul | div => cases h
  | neg =>
    obtain rfl := Option.some.inj ht
    decide
  | func f =>
    obtain rfl := Option.some.inj ht
    cases h

end

/-! ### What may lie below a token -/

theorem liesOn_lparen (t : Token) : LiesOn .lparen t := by
  intro m hm
  cases hm

theorem liesOn_func (f : Func) (t : Token) : LiesOn (.func f) t := by
  intro m hm n hn
  have hfunc : Binding.func.precedence = m := Option.some.inj hm
  refine ⟨hfunc ▸ precedence?_le_func hn, ?_⟩
  rintro rfl
  exact sameNesting_of_pow_le hm hn (hfunc ▸ by decide)

/-- A token may lie on one that does not take the operand before it. -/
theorem liesOn_of_yields_eq_false {t u : Token} {b : Binding} (ht : t.binding? = some b)
    (h : yields b u = false) : LiesOn t u := by
  intro m hm n hn
  obtain rfl : b.precedence = m := by simpa [precedence?, ht] using hm
  obtain ⟨c, hc, rfl⟩ := Option.map_eq_some_iff.1 hn
  simp only [yields, hc, Binding.takesFrom, Bool.or_eq_false_iff, Bool.and_eq_false_iff,
    decide_eq_false_iff_not, Nat.not_lt] at h
  obtain ⟨hle, hgroup⟩ := h
  refine ⟨hle, fun heq => ?_⟩
  have hright : b.grouping = .right := by
    cases hb : b.grouping with
    | left => exact absurd hb (hgroup.resolve_left fun hne => hne heq)
    | right => rfl
  exact sameNesting_of_pow_le hm (heq ▸ hn) (pow_le_of_right ht hright)

/-! ### One token after another -/

theorem Step.isChain_liesOn {s s' : Conversion} {t : Token} (h : Step s t s')
    (hs : s.stack.IsChain LiesOn) : s'.stack.IsChain LiesOn := by
  cases h with
  | number out stack due text => exact hs
  | func out stack due f => exact hs.cons fun t _ => liesOn_func f t
  | lparen out stack due => exact hs.cons fun t _ => liesOn_lparen t
  | neg out due hsplit =>
    exact hs.right_of_append.cons fun t ht => liesOn_of_yields_eq_false rfl (hsplit.2 t ht)
  | op out o hsplit =>
    exact hs.right_of_append.cons fun t ht => liesOn_of_yields_eq_false rfl (hsplit.2 t ht)
  | comma out due hp => exact hs.right_of_append
  | rparen out hp _ => exact hs.right_of_append.tail
  | rparenCall out f hp => exact hs.right_of_append.tail.tail

section

variable {ts : List Token} {s : Conversion} (h : Path {} ts s)

include h

theorem Path.isChain_liesOn : s.stack.IsChain LiesOn := by
  induction h with
  | nil => exact .nil
  | snoc _ hst ih => exact hst.isChain_liesOn ih

/-- Numbers, closing parentheses and commas do not wait. -/
theorem Path.waits_of_mem {t : Token} (ht : t ∈ s.stack) : t.waits = true := by
  have hproper := h.proper proper_nil
  have hnumber : isNumber t = false :=
    Bool.eq_false_iff.2 (List.filter_eq_nil_iff.1 h.keepsOrder.waiting t ht)
  cases t with
  | number => cases hnumber
  | rparen | comma => cases hproper.2 _ ht (by decide)
  | op | neg | func | lparen => rfl

end

/-! ### Between parentheses -/

theorem exists_precedence? {t : Token} (ht : t.waits = true) (hne : t ≠ .lparen) :
    ∃ n, n ∈ t.precedence? := by
  cases t with
  | op | neg | func => exact ⟨_, rfl⟩
  | lparen => exact absurd rfl hne
  | number | rparen | comma => cases ht

/-- From each token to the next precedences do not grow, so they do not grow at all. -/
theorem pairwise_precedence? {group : List Token} (hwaits : ∀ t ∈ group, t.waits = true)
    (hgroup : .lparen ∉ group) (h : group.IsChain LiesOn) :
    (group.filterMap precedence?).Pairwise (· ≥ ·) := by
  induction group with
  | nil => exact .nil
  | cons t group ih =>
    obtain ⟨ht, hrest⟩ := List.forall_mem_cons.1 hwaits
    obtain ⟨hne, hgroup'⟩ := not_or.1 (mt List.mem_cons.2 hgroup)
    obtain ⟨m, hm⟩ := exists_precedence? ht (Ne.symm hne)
    have hpairwise := ih hrest hgroup' h.tail
    rw [List.filterMap_cons_some hm]
    refine List.pairwise_cons.2 ⟨?_, hpairwise⟩
    cases group with
    | nil => exact fun n hn => by cases hn
    | cons u group =>
      obtain ⟨k, hk⟩ := exists_precedence? (hrest u List.mem_cons_self) fun hu =>
        hgroup' (hu ▸ List.mem_cons_self)
      obtain ⟨hle, -⟩ := (List.isChain_cons_cons.1 h).1 m hm k hk
      rw [List.filterMap_cons_some hk] at hpairwise ⊢
      intro n hn
      rcases List.mem_cons.1 hn with rfl | hn
      · exact hle
      · exact Nat.le_trans ((List.pairwise_cons.1 hpairwise).1 n hn) hle

/-- **Whatever has been read, the tokens that wait are in order.**  They are operators, minus signs,
functions and the opening parentheses of the groups that are open.  Wherever no parenthesis stands
between them, precedences never decrease from the bottom to the top, and two neighbours of equal
precedence are both powers, both minus signs or both functions. -/
theorem stackOrder_of_run {ts : List Token} {s : Conversion}
    (h : ({} : Conversion).run 0 ts = .ok s) : StackOrder ts s.stack := by
  have hpath : Path {} ts s := run_eq_ok_iff.1 h
  have hchain := hpath.isChain_liesOn
  refine ⟨fun t => hpath.waits_of_mem, hpath.count_lparen, fun group hgroup hinner => ?_, ?_⟩
  · have hlies : group.IsChain LiesOn := hchain.infix hgroup
    exact pairwise_precedence? (fun t ht => hpath.waits_of_mem (hgroup.subset ht)) hinner hlies
  · exact hchain.imp fun _ _ hlies n hm hn => (hlies n hm n hn).2 rfl

/-- In `(1)+2*--sin cos(3-4^5^` the first group has been closed, and each kind that nests does. -/
theorem stackOrder_of_run_nested :
    ({} : Conversion).run 0 [.lparen, .number ['1'], .rparen, .op .add, .number ['2'], .op .mul,
        .neg, .neg, .func .sin, .func .cos, .lparen, .number ['3'], .op .sub, .number ['4'],
        .op .pow, .number ['5'], .op .pow] =
      .ok ⟨[.number ['1'], .number ['2'], .number ['3'], .number ['4'], .number ['5']],
        [.op .pow, .op .pow, .op .sub, .lparen, .func .cos, .func .sin, .neg, .neg, .op .mul,
          .op .add], true⟩ ∧
    StackOrder [.lparen, .number ['1'], .rparen, .op .add, .number ['2'], .op .mul, .neg, .neg,
        .func .sin, .func .cos, .lparen, .number ['3'], .op .sub, .number ['4'], .op .pow,
        .number ['5'], .op .pow]
      [.op .pow, .op .pow, .op .sub, .lparen, .func .cos, .func .sin, .neg, .neg, .op .mul,
        .op .add] := by
  have hrun : ({} : Conversion).run 0 [.lparen, .number ['1'], .rparen, .op .add, .number ['2'],
        .op .mul, .neg, .neg, .func .sin, .func .cos, .lparen, .number ['3'], .op .sub,
        .number ['4'], .op .pow, .number ['5'], .op .pow] =
      .ok ⟨[.number ['1'], .number ['2'], .number ['3'], .number ['4'], .number ['5']],
        [.op .pow, .op .pow, .op .sub, .lparen, .func .cos, .func .sin, .neg, .neg, .op .mul,
          .op .add], true⟩ := rfl
  exact ⟨hrun, stackOrder_of_run hrun⟩

end Conversion

end Rpn

end PocketCalc
