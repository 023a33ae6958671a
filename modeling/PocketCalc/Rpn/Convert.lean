import PocketCalc.Error
import PocketCalc.Token.Basic

/-!
# From infix to RPN

Tokens are read from left to right.  Numbers go to the output at once; operators, functions and
opening parentheses wait on a stack.  Before an operator is put on the stack, those on top of it
that take the operand in between (`Binding.takesFrom`) move to the output.  A closing parenthesis
moves all down to its partner, and the function in front of the partner too.

What is refused: a binary operator or a closing parenthesis where an operand is due, a comma
outside parentheses, a parenthesis without a partner, and an end where an operand is due.
-/

namespace PocketCalc.Rpn

/-- A conversion under way. -/
structure Conversion where
  /-- The tokens written so far, in order. -/
  output : List Token := []
  /-- The tokens that wait, the last one first. -/
  stack : List Token := []
  /-- An operand is due. -/
  operandDue : Bool := true

namespace Conversion

/-- The token on the stack takes the operand before an operator with binding `b`. -/
def yields (b : Binding) (token : Token) : Bool :=
  match token.binding? with
  | some top => top.takesFrom b
  | none => false

/-- Not an opening parenthesis. -/
def isInner (token : Token) : Bool := decide (token ≠ .lparen)

/-- Moves the tokens on top of the stack that satisfy `p` to the output. -/
def unstack (s : Conversion) (p : Token → Bool) : Conversion :=
  { s with output := s.output ++ s.stack.takeWhile p, stack := s.stack.dropWhile p }

/-- Puts a token on the stack, after which an operand is due. -/
def push (s : Conversion) (token : Token) : Conversion :=
  { s with stack := token :: s.stack, operandDue := true }

/-- Drops the opening parenthesis on top of the stack; a function under it goes to the output. -/
def closeGroup (s : Conversion) : Except SyntaxError Conversion :=
  match s.stack with
  | .lparen :: .func f :: rest => .ok ⟨s.output ++ [.func f], rest, false⟩
  | .lparen :: rest => .ok ⟨s.output, rest, false⟩
  | _ => .error .unmatched

/-- Reads the token with the given position. -/
def step (s : Conversion) (position : Nat) : Token → Except SyntaxError Conversion
  | .number text => .ok { s with output := s.output ++ [.number text], operandDue := false }
  | .func f => .ok (s.push (.func f))
  | .lparen => .ok (s.push .lparen)
  | .neg => .ok ((s.unstack (yields .neg)).push .neg)
  | .op op =>
    if s.operandDue then .error (.misplaced position)
    else .ok ((s.unstack (yields op.binding)).push (.op op))
  | .comma =>
    let inner := s.unstack isInner
    if inner.stack.isEmpty then .error .strayComma else .ok { inner with operandDue := true }
  | .rparen => if s.operandDue then .error .incomplete else (s.unstack isInner).closeGroup

/-- Reads tokens of which the first has the given position. -/
def run (s : Conversion) (position : Nat) : List Token → Except SyntaxError Conversion
  | [] => .ok s
  | token :: rest => do (← s.step position token).run (position + 1) rest

theorem run_append (s : Conversion) (position : Nat) (ts us : List Token) :
    s.run position (ts ++ us) =
      (s.run position ts).bind fun s' => s'.run (position + ts.length) us := by
  induction ts generalizing s position with
  | nil => rfl
  | cons t ts ih =>
    simp only [List.cons_append, run, bind, Except.bind]
    cases s.step position t with
    | error e => rfl
    | ok s' => simpa [Except.bind, Nat.add_assoc, Nat.add_comm 1] using ih s' (position + 1)

/-- Ends the conversion: what waits goes to the output. -/
def finish (s : Conversion) : Except SyntaxError (List Token) :=
  if s.operandDue then .error .incomplete
  else if s.stack.all isInner then .ok (s.output ++ s.stack)
  else .error .unmatched

end Conversion

/-- The tokens of an expression in RPN. -/
def ofTokens (tokens : List Token) : Except SyntaxError (List Token) :=
  if tokens.isEmpty then .error .empty else do (← ({} : Conversion).run 0 tokens).finish

end PocketCalc.Rpn
