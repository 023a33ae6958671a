import PocketCalc.Binary64.Numeral
import PocketCalc.Error
import PocketCalc.Token.Basic

/-!
# The value of RPN

RPN is evaluated on a stack of values: a number is put on it, an operation takes its operands from
it and puts its value there, the right operand being the one on top.  Infinite values and NaN are
values like others.
-/

namespace PocketCalc.Rpn

/-- The stack after a token, the value put there last first. -/
def evalStep (stack : List Float) (token : Token) : Except EvalError (List Float) :=
  match token, stack with
  | .number text, stack =>
    match Binary64.Numeral.read? text with
    | some v => .ok (v :: stack)
    | none => .error (.badNumber text)
  | .neg, x :: stack => .ok (-x :: stack)
  | .op op, b :: a :: stack => .ok (op.apply a b :: stack)
  | .func f, x :: stack => .ok (f.apply x :: stack)
  | .neg, _ | .op _, _ | .func _, _ => .error (.stackEmpty token.text)
  | .lparen, _ | .rparen, _ | .comma, _ => .error (.notOperation token.text)

/-- The stack after tokens. -/
def evalFrom (stack : List Float) : List Token → Except EvalError (List Float)
  | [] => .ok stack
  | token :: rest => do evalFrom (← evalStep stack token) rest

/-- The value that remains alone on the stack. -/
def result : List Float → Except EvalError Float
  | [v] => .ok v
  | stack => .error (.leftover stack.length)

/-- The value of RPN. -/
def eval (tokens : List Token) : Except EvalError Float := do result (← evalFrom [] tokens)

end PocketCalc.Rpn
