import PocketCalc.Binary64.Numeral
import PocketCalc.Token.Basic

/-!
# Expression trees

A tree says which operands belong to which operation, so that neither precedence nor parentheses
are needed.  It has a value, found from the leaves up, and it is written in RPN by putting each
operation after its operands.
-/

namespace PocketCalc

/-- An expression tree. -/
inductive Expr
  /-- A number, by its text. -/
  | number (text : List Char)
  /-- A minus sign and its operand. -/
  | neg (operand : Expr)
  /-- A function and its argument. -/
  | call (f : Func) (argument : Expr)
  /-- A binary operator and its operands. -/
  | binary (op : BinOp) (left right : Expr)
deriving DecidableEq

namespace Expr

/-- The tokens of a tree, each operation after its operands. -/
def rpn : Expr → List Token
  | number text => [.number text]
  | neg operand => operand.rpn ++ [.neg]
  | call f argument => argument.rpn ++ [.func f]
  | binary op left right => left.rpn ++ right.rpn ++ [.op op]

/-- The value of a tree; none if the text of some number in it denotes none. -/
def value? : Expr → Option Float
  | number text => Binary64.Numeral.read? text
  | neg operand => do return -(← operand.value?)
  | call f argument => do return f.apply (← argument.value?)
  | binary op left right => do return op.apply (← left.value?) (← right.value?)

end Expr

end PocketCalc
