import Mathlib.Data.List.Forall2
import PocketCalc.Expr.Value
import PocketCalc.Proofs.Rpn.Balance

/-!
# RPN that has a value is the postorder of one tree

The stack machine that evaluates RPN also rebuilds trees from it, when it works on trees in place of
values (`treesFrom`).  It gives back each tree from its postorder (`treesFrom_rpn`), so that no two
trees have the same one; and whatever it accepts is the postorder of the trees it ends with, those
at the bottom of the stack first (`rpnOfStack_of_treesFrom`).  Wherever evaluation succeeds, trees
can be rebuilt, and they have the values that evaluation finds (`exists_treesFrom_of_evalFrom`).

Main statement: `eval_eq_ok_iff_exists_tree`.
-/

namespace PocketCalc.Rpn

/-! ### Rebuilding trees -/

/-- The stack of trees after a token; the right operand of an operator is the tree on top. -/
def treeStep (stack : List Expr) (token : Token) : Option (List Expr) :=
  match token, stack with
  | .number text, stack => some (.number text :: stack)
  | .neg, e :: stack => some (.neg e :: stack)
  | .func f, e :: stack => some (.call f e :: stack)
  | .op o, r :: l :: stack => some (.binary o l r :: stack)
  | _, _ => none

/-- The stack of trees after tokens. -/
def treesFrom (stack : List Expr) (ts : List Token) : Option (List Expr) := ts.foldlM treeStep stack

/-- The postorder of the trees on a stack, of which the top one comes last. -/
def rpnOfStack (stack : List Expr) : List Token := stack.reverse.flatMap Expr.rpn

@[simp] theorem rpnOfStack_cons (e : Expr) (stack : List Expr) :
    rpnOfStack (e :: stack) = rpnOfStack stack ++ e.rpn := by
  simp [rpnOfStack]

theorem treesFrom_append (stack : List Expr) (ts us : List Token) :
    treesFrom stack (ts ++ us) = (treesFrom stack ts).bind fun stack' => treesFrom stack' us :=
  List.foldlM_append

@[simp] theorem treesFrom_singleton (stack : List Expr) (t : Token) :
    treesFrom stack [t] = treeStep stack t := by
  simp [treesFrom]

/-- A tree is rebuilt from its postorder, whatever waits below. -/
theorem treesFrom_rpn (e : Expr) (stack : List Expr) :
    treesFrom stack e.rpn = some (e :: stack) := by
  induction e generalizing stack with
  | number text => rfl
  | neg operand ih => simp [Expr.rpn, treesFrom_append, ih, treeStep]
  | call f argument ih => simp [Expr.rpn, treesFrom_append, ih, treeStep]
  | binary o left right ihl ihr => simp [Expr.rpn, treesFrom_append, ihl, ihr, treeStep]

/-- No two trees have the same postorder. -/
theorem rpn_injective : Function.Injective Expr.rpn := by
  intro e e' h
  have hstack : treesFrom [] e.rpn = some [e'] := by rw [h, treesFrom_rpn]
  rw [treesFrom_rpn] at hstack
  exact (List.cons.inj (Option.some.inj hstack)).1

theorem rpnOfStack_of_treeStep {stack stack' : List Expr} {t : Token}
    (h : treeStep stack t = some stack') : rpnOfStack stack' = rpnOfStack stack ++ [t] := by
  unfold treeStep at h
  split at h
  · obtain rfl := Option.some.inj h
    simp [Expr.rpn]
  · obtain rfl := Option.some.inj h
    simp [Expr.rpn]
  · obtain rfl := Option.some.inj h
    simp [Expr.rpn]
  · obtain rfl := Option.some.inj h
    simp [Expr.rpn]
  · cases h

/-- Tokens that are accepted are the postorder of the trees they add. -/
theorem rpnOfStack_of_treesFrom {stack stack' : List Expr} {ts : List Token}
    (h : treesFrom stack ts = some stack') : rpnOfStack stack' = rpnOfStack stack ++ ts := by
  induction ts generalizing stack with
  | nil =>
    obtain rfl := Option.some.inj h
    exact (List.append_nil _).symm
  | cons t ts ih =>
    obtain ⟨mid, hmid, hrest⟩ := Option.bind_eq_some_iff.1 h
    rw [ih hrest, rpnOfStack_of_treeStep hmid, List.append_assoc]
    rfl

/-! ### Trees and values -/

/-- The trees have the given values, one by one. -/
def HaveValues (es : List Expr) (vs : List Float) : Prop :=
  List.Forall₂ (fun e v => e.value? = some v) es vs

/-- A token that can be evaluated can take part in a tree, with the same value. -/
theorem exists_treeStep_of_evalStep {es : List Expr} {vs vs' : List Float} {t : Token}
    (hes : HaveValues es vs) (h : evalStep vs t = .ok vs') :
    ∃ es', treeStep es t = some es' ∧ HaveValues es' vs' := by
  cases t with
  | number text =>
    cases hread : Binary64.Numeral.read? text with
    | none => simp [evalStep, hread] at h
    | some v =>
      obtain rfl : v :: vs = vs' := by simpa [evalStep, hread] using h
      exact ⟨_, rfl, .cons hread hes⟩
  | neg =>
    cases hes with
    | nil => cases h
    | cons hx hrest =>
      obtain rfl := Except.ok.inj h
      exact ⟨_, rfl, .cons (by simp [Expr.value?, hx]) hrest⟩
  | func f =>
    cases hes with
    | nil => cases h
    | cons hx hrest =>
      obtain rfl := Except.ok.inj h
      exact ⟨_, rfl, .cons (by simp [Expr.value?, hx]) hrest⟩
  | op o =>
    -- the right operand is on top of the left one, on both stacks
    cases hes with
    | nil => cases h
    | cons hb hrest =>
      cases hrest with
      | nil => cases h
      | cons ha hrest =>
        obtain rfl := Except.ok.inj h
        exact ⟨_, rfl, .cons (by simp [Expr.value?, ha, hb]) hrest⟩
  | lparen | rparen | comma => cases h

/-- Tokens that can be evaluated make up trees, with the same values. -/
theorem exists_treesFrom_of_evalFrom {es : List Expr} {vs vs' : List Float} {ts : List Token}
    (hes : HaveValues es vs) (h : evalFrom vs ts = .ok vs') :
    ∃ es', treesFrom es ts = some es' ∧ HaveValues es' vs' := by
  induction ts generalizing es vs with
  | nil =>
    obtain rfl := Except.ok.inj h
    exact ⟨es, rfl, hes⟩
  | cons t ts ih =>
    obtain ⟨mid, hmid, hrest⟩ := evalFrom_cons_eq_ok_iff.1 h
    obtain ⟨es₁, hstep, hes₁⟩ := exists_treeStep_of_evalStep hes hmid
    obtain ⟨es', htrees, hes'⟩ := ih hes₁ hrest
    exact ⟨es', Option.bind_eq_some_iff.2 ⟨es₁, hstep, htrees⟩, hes'⟩

/-- RPN that has a value is the postorder of a tree with this value. -/
theorem exists_rpn_eq_of_eval {ts : List Token} {v : Float} (h : eval ts = .ok v) :
    ∃ e : Expr, e.rpn = ts ∧ e.value? = some v := by
  obtain ⟨es, htrees, hes⟩ := exists_treesFrom_of_evalFrom .nil (eval_eq_ok_iff.1 h)
  cases hes with
  | @cons e _ _ _ hv hrest =>
    cases hrest
    exact ⟨e, by simpa [rpnOfStack] using rpnOfStack_of_treesFrom htrees, hv⟩

/-- **Evaluation accepts exactly the postorder of trees.**  Tokens have the value `v` exactly if
they are the postorder of a tree in which all numbers can be read and which has the value `v`; and
no tokens are the postorder of two trees. -/
theorem eval_eq_ok_iff_exists_tree (ts : List Token) (v : Float) :
    (eval ts = .ok v ↔
      ∃ e : Expr, e.rpn = ts ∧
        (∀ text, .number text ∈ ts → (Binary64.Numeral.read? text).isSome = true) ∧
        e.value? = some v) ∧
      ∀ e e' : Expr, e.rpn = ts → e'.rpn = ts → e = e' := by
  refine ⟨⟨fun h => ?_, ?_⟩, fun e e' he he' => rpn_injective (he.trans he'.symm)⟩
  · obtain ⟨e, rfl, hv⟩ := exists_rpn_eq_of_eval h
    refine ⟨e, rfl, fun text ht => ?_, hv⟩
    obtain ⟨w, hw⟩ := exists_read?_of_evalFrom (eval_eq_ok_iff.1 h) ht
    exact Option.isSome_iff_exists.2 ⟨w, hw⟩
  · rintro ⟨e, rfl, -, hv⟩
    exact eval_rpn hv

/-- The text of a number may have a sign and an exponent here, and two minus signs may follow each
other. -/
theorem exists_tree_signed_numbers :
    ∃ v, eval [.number ['-', '2'], .neg, .neg, .number ['1', 'e', '3'], .op .sub] = .ok v ∧
      ∃ e : Expr, e.rpn = [.number ['-', '2'], .neg, .neg, .number ['1', 'e', '3'], .op .sub] ∧
        e.value? = some v ∧
        ∀ e' : Expr, e'.rpn =
            [.number ['-', '2'], .neg, .neg, .number ['1', 'e', '3'], .op .sub] → e' = e := by
  have heval : eval [.number ['-', '2'], .neg, .neg, .number ['1', 'e', '3'], .op .sub] = .ok _ :=
    rfl
  obtain ⟨hiff, hunique⟩ := eval_eq_ok_iff_exists_tree _ _
  obtain ⟨e, he, -, hv⟩ := hiff.1 heval
  exact ⟨_, heval, e, he, hv, fun e' he' => hunique e' e he' he⟩

end PocketCalc.Rpn
