import Mathlib.Tactic.ByContra
import PocketCalc.Expr.Grammar
import PocketCalc.Expr.Value
import PocketCalc.Proofs.Rpn.Steps

/-!
# The RPN of an expression is the postorder of its tree

The tokens of an expression are read with the tokens `base` of its surroundings already waiting on
the stack.  While it is read, tokens of its own come to wait on top of them, and in the end what was
written and what still waits make up the postorder of its tree, in this order
(`converts_of_derives`).
Two bounds carry the induction on the derivation:

* the surroundings do not take the operand before an operator of the expression's level, so that
  such an operator moves only tokens of the expression to the output;
* what the expression leaves waiting binds at least as tightly as its level, so that an operator of
  a looser level moves all of it to the output.

Functions that wait right below the expression are a case of their own: a closing parenthesis takes
the first of them along.

Main statement: `ofTokens_rpn_and_eval`.
-/

namespace PocketCalc

/-- The binding of the operators of a level; the minus sign stands for operands. -/
def Level.binding : Level → Binding
  | .sum => BinOp.add.binding
  | .product => BinOp.mul.binding
  | .power => BinOp.pow.binding
  | .operand => .neg

namespace Rpn

namespace Conversion

/-! ### Bounds on the tokens that wait -/

/-- The token waits for operands and binds with at least the given precedence. -/
def BindsAtLeast (precedence : Nat) (t : Token) : Prop :=
  ∃ b, t.binding? = some b ∧ precedence ≤ b.precedence

theorem BindsAtLeast.mono {m n : Nat} {t : Token} (h : BindsAtLeast n t) (hmn : m ≤ n) :
    BindsAtLeast m t := by
  obtain ⟨b, hb, hle⟩ := h
  exact ⟨b, hb, Nat.le_trans hmn hle⟩

theorem BindsAtLeast.ne_lparen {n : Nat} {t : Token} (h : BindsAtLeast n t) : t ≠ .lparen := by
  obtain ⟨b, hb, -⟩ := h
  rintro rfl
  cases hb

/-- A token that binds more tightly than `b`, or as tightly as `b` grouped from the left, takes the
operand before an operator with binding `b`. -/
theorem BindsAtLeast.yields {n : Nat} {b : Binding} {t : Token} (h : BindsAtLeast n t)
    (hb : b.precedence < n ∨ b.precedence ≤ n ∧ b.grouping = .left) : yields b t = true := by
  obtain ⟨top, htop, hle⟩ := h
  simp only [Conversion.yields, htop, Binding.takesFrom, Bool.or_eq_true, Bool.and_eq_true,
    decide_eq_true_eq]
  rcases hb with hlt | ⟨hle', hleft⟩
  · exact .inl (by omega)
  · by_cases heq : top.precedence = b.precedence
    · exact .inr ⟨heq, hleft⟩
    · exact .inl (by omega)

/-- The token on top of the stack does not take the operand before an operator of the level. -/
def Bounded (level : Level) (stack : List Token) : Prop :=
  ∀ t ∈ stack.head?, yields level.binding t = false

theorem bounded_lparen (level : Level) (stack : List Token) : Bounded level (.lparen :: stack) := by
  intro t ht
  obtain rfl : Token.lparen = t := by simpa using ht
  rfl

theorem bounded_neg (stack : List Token) : Bounded .operand (.neg :: stack) := by
  intro t ht
  obtain rfl : Token.neg = t := by simpa using ht
  rfl

theorem Bounded.ne_func {stack : List Token} (h : Bounded .operand stack) (f : Func) :
    stack.head? ≠ some (.func f) := by
  intro hf
  have := h _ hf
  cases this

/-- A stack that bounds operators of one level bounds those of a tighter level too. -/
theorem Bounded.tighten {loose tight : Level} {stack : List Token} (h : Bounded loose stack)
    (hlt : loose.binding.precedence < tight.binding.precedence) : Bounded tight stack := by
  intro t ht
  have hloose := h t ht
  unfold Conversion.yields Binding.takesFrom at hloose ⊢
  cases hb : t.binding? with
  | none => rfl
  | some top =>
    simp only [hb, Bool.or_eq_false_iff, Bool.and_eq_false_iff, decide_eq_false_iff_not] at hloose ⊢
    exact ⟨by omega, .inl (by omega)⟩

/-- An operator of a level waits without bounding the operands to the right of it. -/
theorem bounded_op {tight : Level} {o : BinOp}
    (ho : o.binding.precedence < tight.binding.precedence ∨ o = .pow ∧ tight = .power)
    (stack : List Token) : Bounded tight (.op o :: stack) := by
  intro t ht
  obtain rfl : Token.op o = t := by simpa using ht
  rcases ho with hlt | ⟨rfl, rfl⟩
  · simp only [Conversion.yields, Token.binding?, Binding.takesFrom, Bool.or_eq_false_iff,
      Bool.and_eq_false_iff, decide_eq_false_iff_not]
    exact ⟨by omega, .inl (by omega)⟩
  · rfl

/-! ### Reading an expression -/

/-- Reading `ts` on top of `base` with the functions `calls` waiting in between leads to a
conversion in which an operand has just ended, and in which what was written since `out` and what
waits above `base` are the postorder of `e` and the functions. -/
def Converts (level : Level) (ts : List Token) (e : Expr) (calls : List Func) : Prop :=
  ∀ out base : List Token, Bounded level base →
    ∃ o pending, Path ⟨out, calls.map .func ++ base, true⟩ ts ⟨o, pending ++ base, false⟩ ∧
      o ++ pending = out ++ e.rpn ++ calls.map .func ∧
      ∀ t ∈ pending, BindsAtLeast level.binding.precedence t

theorem Converts.loosen {tight loose : Level} {ts : List Token} {e : Expr}
    (h : Converts tight ts e []) (hlt : loose.binding.precedence < tight.binding.precedence) :
    Converts loose ts e [] := by
  intro out base hbase
  obtain ⟨o, pending, hpath, hpost, hbinds⟩ := h out base (hbase.tighten hlt)
  exact ⟨o, pending, hpath, hpost, fun t ht => (hbinds t ht).mono (Nat.le_of_lt hlt)⟩

/-- Reading an operator of the level `level` between two operands. -/
theorem Converts.binary {level left right : Level} {ts us : List Token} {l r : Expr} {o : BinOp}
    (ho : o.binding = level.binding) (hl : Converts left ts l []) (hr : Converts right us r [])
    (hleft : level.binding.precedence < left.binding.precedence ∨
      level = left ∧ level.binding.grouping = .left)
    (hright : level.binding.precedence < right.binding.precedence ∨ o = .pow ∧ right = .power) :
    Converts level (ts ++ .op o :: us) (.binary o l r) [] := by
  intro out base hbase
  have hbase' : Bounded left base := by
    rcases hleft with hlt | ⟨rfl, -⟩
    · exact hbase.tighten hlt
    · exact hbase
  obtain ⟨o₁, pending₁, hpath₁, hpost₁, hbinds₁⟩ := hl out base hbase'
  -- the operator moves all that the left operand left waiting, and nothing else
  have hsplit : Splits (yields o.binding) pending₁ base := by
    refine ⟨fun t ht => (hbinds₁ t ht).yields ?_, ho ▸ hbase⟩
    rw [ho]
    rcases hleft with hlt | ⟨rfl, hgroup⟩
    · exact .inl hlt
    · exact .inr ⟨Nat.le_refl _, hgroup⟩
  have hop : Bounded right (.op o :: base) := bounded_op (ho ▸ hright) base
  obtain ⟨o₂, pending₂, hpath₂, hpost₂, hbinds₂⟩ := hr (o₁ ++ pending₁) (.op o :: base) hop
  refine ⟨o₂, pending₂ ++ [.op o], ?_, ?_, ?_⟩
  · simpa using hpath₁.append (.cons (.op o₁ o hsplit) hpath₂)
  · simp only [List.map_nil, List.append_nil] at hpost₁ hpost₂ ⊢
    rw [← List.append_assoc, hpost₂, hpost₁]
    simp [Expr.rpn]
  · intro t ht
    rcases List.mem_append.1 ht with ht | ht
    · refine (hbinds₂ t ht).mono ?_
      rcases hright with hlt | ⟨rfl, rfl⟩
      · exact Nat.le_of_lt hlt
      · exact Nat.le_of_eq (congrArg Binding.precedence ho).symm
    · obtain rfl := List.mem_singleton.1 ht
      exact ⟨o.binding, rfl, Nat.le_of_eq (congrArg Binding.precedence ho).symm⟩

theorem converts_number (text : List Char) (calls : List Func) :
    Converts .operand [.number text] (.number text) calls := by
  intro out base _
  refine ⟨out ++ [.number text], calls.map .func, .single (.number out _ true text), rfl, ?_⟩
  intro t ht
  obtain ⟨f, -, rfl⟩ := List.mem_map.1 ht
  exact ⟨.func, rfl, by decide⟩

theorem Converts.neg {ts : List Token} {e : Expr} (h : Converts .operand ts e []) :
    Converts .operand (.neg :: ts) (.neg e) [] := by
  intro out base hbase
  obtain ⟨o, pending, hpath, hpost, hbinds⟩ := h out (.neg :: base) (bounded_neg base)
  have hsplit : Splits (yields .neg) [] base := ⟨fun t ht => absurd ht List.not_mem_nil, hbase⟩
  refine ⟨o, pending ++ [.neg], ?_, ?_, ?_⟩
  · have hstep : Step ⟨out, base, true⟩ .neg ⟨out, .neg :: base, true⟩ := by
      simpa using Step.neg out true hsplit
    simpa using Path.cons hstep hpath
  · simp only [List.map_nil, List.append_nil] at hpost ⊢
    rw [← List.append_assoc, hpost]
    simp [Expr.rpn]
  · intro t ht
    rcases List.mem_append.1 ht with ht | ht
    · exact hbinds t ht
    · obtain rfl := List.mem_singleton.1 ht
      exact ⟨.neg, rfl, Nat.le_refl _⟩

theorem Converts.call {ts : List Token} {e : Expr} {f : Func} {calls : List Func}
    (h : Converts .operand ts e (f :: calls)) :
    Converts .operand (.func f :: ts) (.call f e) calls := by
  intro out base hbase
  obtain ⟨o, pending, hpath, hpost, hbinds⟩ := h out base hbase
  refine ⟨o, pending, .cons (.func out _ true f) hpath, ?_, hbinds⟩
  rw [hpost]
  simp [Expr.rpn]

/-- The closing parenthesis takes the first of the functions that wait below the group along. -/
theorem Converts.group {ts : List Token} {e : Expr} (h : Converts .sum ts e [])
    (calls : List Func) : Converts .operand (.lparen :: ts ++ [.rparen]) e calls := by
  intro out base hbase
  obtain ⟨o, pending, hpath, hpost, hbinds⟩ :=
    h out (.lparen :: (calls.map .func ++ base)) (bounded_lparen _ _)
  have hinner : .lparen ∉ pending := fun hmem => (hbinds _ hmem).ne_lparen rfl
  simp only [List.map_nil, List.append_nil, List.nil_append] at hpath hpost
  have hopen := Path.cons (.lparen out (calls.map .func ++ base) true) hpath
  cases calls with
  | nil =>
    refine ⟨o ++ pending, [], hopen.snoc (.rparen o hinner hbase.ne_func), ?_, ?_⟩
    · simp [hpost]
    · exact fun t ht => absurd ht List.not_mem_nil
  | cons f calls =>
    have hclose : Step ⟨o, pending ++ .lparen :: ((f :: calls).map .func ++ base), false⟩ .rparen
        ⟨o ++ pending ++ [.func f], calls.map .func ++ base, false⟩ := .rparenCall o f hinner
    -- the other functions still wait for the operand that has ended
    refine ⟨o ++ pending ++ [.func f], calls.map .func, hopen.snoc hclose, ?_, ?_⟩
    · simp [hpost]
    · intro t ht
      obtain ⟨g, -, rfl⟩ := List.mem_map.1 ht
      exact ⟨.func, rfl, by decide⟩

/-- Functions wait right below the expression only where it can be their argument. -/
def MayFollow (calls : List Func) (level : Level) (ts : List Token) : Prop :=
  calls ≠ [] → level = .operand ∧ ts.head? ≠ some .neg

theorem mayFollow_nil (level : Level) (ts : List Token) : MayFollow [] level ts :=
  fun h => absurd rfl h

theorem MayFollow.eq_nil {calls : List Func} {level : Level} {ts : List Token}
    (h : MayFollow calls level ts) (hne : level ≠ .operand ∨ ts.head? = some .neg) :
    calls = [] := by
  by_contra hcalls
  obtain ⟨hlevel, hhead⟩ := h hcalls
  rcases hne with hne | hne
  · exact hne hlevel
  · exact hhead hne

/-- Reading an expression writes the postorder of its tree, up to what still waits. -/
theorem converts_of_derives {level : Level} {ts : List Token} {e : Expr} (h : Derives level ts e)
    {calls : List Func} (hcalls : MayFollow calls level ts) : Converts level ts e calls := by
  induction h generalizing calls with
  | number text => exact converts_number text calls
  | group _ ih => exact (ih (mayFollow_nil _ _)).group calls
  | neg _ ih =>
    obtain rfl := hcalls.eq_nil (.inr rfl)
    exact (ih (mayFollow_nil _ _)).neg
  | call f hhead _ ih => exact (ih fun _ => ⟨rfl, hhead⟩).call
  -- no function waits right below an expression of a looser level
  | ofOperand _ ih | ofPower _ ih | ofProduct _ ih =>
    obtain rfl := hcalls.eq_nil (.inl (by decide))
    exact (ih (mayFollow_nil _ _)).loosen (by decide)
  | power _ _ ihl ihr =>
    obtain rfl := hcalls.eq_nil (.inl (by decide))
    exact (ihl (mayFollow_nil _ _)).binary rfl (ihr (mayFollow_nil _ _)) (.inl (by decide))
      (.inr ⟨rfl, rfl⟩)
  | product ho _ _ ihl ihr =>
    obtain rfl := hcalls.eq_nil (.inl (by decide))
    refine (ihl (mayFollow_nil _ _)).binary ?_ (ihr (mayFollow_nil _ _)) (.inr ⟨rfl, rfl⟩)
      (.inl (by decide))
    rcases ho with rfl | rfl <;> rfl
  | sum ho _ _ ihl ihr =>
    obtain rfl := hcalls.eq_nil (.inl (by decide))
    refine (ihl (mayFollow_nil _ _)).binary ?_ (ihr (mayFollow_nil _ _)) (.inr ⟨rfl, rfl⟩)
      (.inl (by decide))
    rcases ho with rfl | rfl <;> rfl

end Conversion

/-- The RPN of an expression is the postorder of its tree. -/
theorem ofTokens_eq_rpn {ts : List Token} {e : Expr} (h : Derives .sum ts e) :
    ofTokens ts = .ok e.rpn := by
  have hbase : Conversion.Bounded .sum [] := fun t ht => by cases ht
  obtain ⟨o, pending, hpath, hpost, hbinds⟩ :=
    Conversion.converts_of_derives h (Conversion.mayFollow_nil _ _) [] [] hbase
  simp only [List.map_nil, List.append_nil, List.nil_append] at hpath hpost
  refine ofTokens_eq_ok_iff.2 ⟨_, hpath, rfl, ?_, hpost.symm⟩
  exact fun hmem => (hbinds _ hmem).ne_lparen rfl

/-! ### The value -/

/-- A tree has a value if each number in its tokens denotes one. -/
theorem exists_value_of_derives {level : Level} {ts : List Token} {e : Expr}
    (h : Derives level ts e)
    (hread : ∀ text, .number text ∈ ts → (Binary64.Numeral.read? text).isSome) :
    ∃ v, e.value? = some v := by
  induction h with
  | number text => exact Option.isSome_iff_exists.1 (hread text (by simp))
  | group _ ih => exact ih fun text ht => hread text (by simp [ht])
  | neg _ ih =>
    obtain ⟨v, hv⟩ := ih fun text ht => hread text (by simp [ht])
    exact ⟨-v, by simp [Expr.value?, hv]⟩
  | call f _ _ ih =>
    obtain ⟨v, hv⟩ := ih fun text ht => hread text (by simp [ht])
    exact ⟨f.apply v, by simp [Expr.value?, hv]⟩
  | ofOperand _ ih | ofPower _ ih | ofProduct _ ih => exact ih hread
  | power _ _ ihl ihr | product _ _ _ ihl ihr | sum _ _ _ ihl ihr =>
    obtain ⟨v, hv⟩ := ihl fun text ht => hread text (by simp [ht])
    obtain ⟨w, hw⟩ := ihr fun text ht => hread text (by simp [ht])
    exact ⟨_, by simp [Expr.value?, hv, hw]; rfl⟩

/-- **Conversion keeps the meaning of an expression.**  The tokens of an expression with the tree
`e` have the postorder of `e` as their RPN, and, if each number in them denotes one, the value of
this RPN is the value of `e`. -/
theorem ofTokens_rpn_and_eval {ts : List Token} {e : Expr} (h : Derives .sum ts e) :
    ofTokens ts = .ok e.rpn ∧
      ((∀ text, .number text ∈ ts → (Binary64.Numeral.read? text).isSome) →
        ∃ v, e.value? = some v ∧ eval e.rpn = .ok v) := by
  refine ⟨ofTokens_eq_rpn h, fun hread => ?_⟩
  obtain ⟨v, hv⟩ := exists_value_of_derives h hread
  exact ⟨v, hv, eval_rpn hv⟩

section

open Token

/-- `-1 ^ 2 ^ 3 * sin ( 4 - 5 - 6 )`, with operators of all precedences and both groupings. -/
theorem derives_mixed :
    Derives .sum
      [neg, number ['1'], op .pow, number ['2'], op .pow, number ['3'], op .mul, func .sin, lparen,
        number ['4'], op .sub, number ['5'], op .sub, number ['6'], rparen]
      (.binary .mul
        (.binary .pow (.neg (.number ['1'])) (.binary .pow (.number ['2']) (.number ['3'])))
        (.call .sin
          (.binary .sub (.binary .sub (.number ['4']) (.number ['5'])) (.number ['6'])))) := by
  have hproduct {ts : List Token} {e : Expr} (h : Derives .operand ts e) : Derives .product ts e :=
    .ofPower (.ofOperand h)
  have hpower := Derives.power (.neg (.number ['1']))
    (.power (.number ['2']) (.ofOperand (.number ['3'])))
  have hdiff := Derives.sum (.inr rfl)
    (.sum (.inr rfl) (.ofProduct (hproduct (.number ['4']))) (hproduct (.number ['5'])))
    (hproduct (.number ['6']))
  exact .ofProduct (.product (.inl rfl) (.ofPower hpower)
    (.ofOperand (.call .sin (by decide) (.group hdiff))))

theorem ofTokens_and_eval_mixed :
    ofTokens
      [neg, number ['1'], op .pow, number ['2'], op .pow, number ['3'], op .mul, func .sin, lparen,
        number ['4'], op .sub, number ['5'], op .sub, number ['6'], rparen] =
      .ok [number ['1'], neg, number ['2'], number ['3'], op .pow, op .pow, number ['4'],
        number ['5'], op .sub, number ['6'], op .sub, func .sin, op .mul] ∧
    ∃ v, eval [number ['1'], neg, number ['2'], number ['3'], op .pow, op .pow, number ['4'],
        number ['5'], op .sub, number ['6'], op .sub, func .sin, op .mul] = .ok v := by
  obtain ⟨hrpn, hvalue⟩ := ofTokens_rpn_and_eval derives_mixed
  obtain ⟨v, -, hv⟩ := hvalue fun text ht => by
    simp only [List.mem_cons, Token.number.injEq, List.not_mem_nil, or_false, reduceCtorEq,
      false_or] at ht
    rcases ht with rfl | rfl | rfl | rfl | rfl | rfl <;> rfl
  exact ⟨hrpn, v, hv⟩

end

end Rpn

end PocketCalc
