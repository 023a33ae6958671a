import PocketCalc.Operator.Basic

/-!
# Precedence and grouping

How tightly an operator binds, and which way operators of one precedence group:

| operators     | precedence | grouping | operands |
|---------------|------------|----------|----------|
| `+` `-`       | 1          | left     | 2        |
| `*` `/`       | 2          | left     | 2        |
| `^`           | 3          | right    | 2        |
| minus sign    | 4          | right    | 1        |
| functions     | 5          | left     | 1        |
-/

namespace PocketCalc

/-- The side from which operators of one precedence group. -/
inductive Grouping
  | left | right
deriving DecidableEq

/-- How an operator binds its operands. -/
structure Binding where
  /-- The larger, the tighter. -/
  precedence : Nat
  /-- The grouping among operators of this precedence. -/
  grouping : Grouping
  /-- The number of operands. -/
  arity : Nat
deriving DecidableEq

namespace Binding

/-- The binding of the minus sign in front of an operand. -/
def neg : Binding := ⟨4, .right, 1⟩

/-- The binding of a function. -/
def func : Binding := ⟨5, .left, 1⟩

/-- An operator with binding `top`, met to the left of one with binding `b`, takes the operand
between the two. -/
def takesFrom (top b : Binding) : Bool :=
  decide (b.precedence < top.precedence) ||
    (decide (top.precedence = b.precedence) && decide (b.grouping = .left))

end Binding

/-- The binding of a binary operator. -/
def BinOp.binding : BinOp → Binding
  | .add | .sub => ⟨1, .left, 2⟩
  | .mul | .div => ⟨2, .left, 2⟩
  | .pow => ⟨3, .right, 2⟩

end PocketCalc
