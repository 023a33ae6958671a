import PocketCalc.Expr.Basic
import PocketCalc.Rpn.Eval

/-!
# The value of a tree and of its RPN

Running the RPN of a tree puts the value of the tree on the stack (`Rpn.evalFrom_rpn`), whatever
waits below and whatever follows.  Hence both have the same value (`Rpn.eval_rpn`).
-/

namespace PocketCalc.Rpn

theorem evalFrom_append (stack : List Float) (ts us : List Token) :
    evalFrom stack (ts ++ us) = (evalFrom stack ts).bind fun s => evalFrom s us := by
  induction ts generalizing stack with
  | nil => rfl
  | cons t ts ih =>
    simp only [List.cons_append, evalFrom, bind, Except.bind]
    cases evalStep stack t with
    | error e => rfl
    | ok s => exact ih s

/-- The RPN of a tree puts the value of the tree on the stack. -/
theorem evalFrom_rpn {e : Expr} {v : Float} (h : e.value? = some v) (stack : List Float) :
    evalFrom stack e.rpn = .ok (v :: stack) := by
  induction e generalizing v stack with
  | number text =>
    simp only [Expr.value?] at h
    simp [Expr.rpn, evalFrom, evalStep, h, bind, Except.bind]
  | neg operand ih =>
    simp only [Expr.value?, bind, Option.bind_eq_some_iff, pure, Option.some.injEq] at h
    obtain ⟨x, hx, rfl⟩ := h
    simp [Expr.rpn, evalFrom_append, ih hx, evalFrom, evalStep, bind, Except.bind]
  | call f argument ih =>
    simp only [Expr.value?, bind, Option.bind_eq_some_iff, pure, Option.some.injEq] at h
    obtain ⟨x, hx, rfl⟩ := h
    simp [Expr.rpn, evalFrom_append, ih hx, evalFrom, evalStep, bind, Except.bind]
  | binary op left right ihl ihr =>
    simp only [Expr.value?, bind, Option.bind_eq_some_iff, pure, Option.some.injEq] at h
    obtain ⟨x, hx, y, hy, rfl⟩ := h
    simp [Expr.rpn, evalFrom_append, ihl hx, ihr hy, evalFrom, evalStep, bind, Except.bind]

/-- A tree and its RPN have the same value. -/
theorem eval_rpn {e : Expr} {v : Float} (h : e.value? = some v) : eval e.rpn = .ok v := by
  simp [eval, evalFrom_rpn h, result, bind, Except.bind]

end PocketCalc.Rpn
