import PocketCalc.Operator.Binding

/-!
# Tokens

The pieces that an expression is made of, in infix order as well as in reverse Polish notation
(RPN).
-/

namespace PocketCalc

/-- A piece of an expression. -/
inductive Token
  /-- A number, by its text; whether the text denotes one shows only on evaluation. -/
  | number (text : List Char)
  /-- A binary operator. -/
  | op (operator : BinOp)
  /-- The minus sign in front of an operand. -/
  | neg
  /-- A function. -/
  | func (function : Func)
  /-- An opening parenthesis. -/
  | lparen
  /-- A closing parenthesis. -/
  | rparen
  /-- A separator of arguments. -/
  | comma
deriving DecidableEq

namespace Token

/-- A token as it is written in a trace, where the two uses of the minus sign differ. -/
def text : Token → List Char
  | number digits => digits
  | op o => [o.symbol]
  | neg => ['n', 'e', 'g']
  | func f => f.name
  | lparen => ['(']
  | rparen => [')']
  | comma => [',']

/-- Tokens as they are written in a trace, one space between two. -/
def textOfList (tokens : List Token) : List Char := [' '].intercalate (tokens.map text)

/-- How an operator or function binds; numbers and punctuation do not. -/
def binding? : Token → Option Binding
  | op o => some o.binding
  | neg => some .neg
  | func _ => some .func
  | _ => none

end Token

end PocketCalc
