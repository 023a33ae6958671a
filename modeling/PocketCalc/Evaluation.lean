import PocketCalc.Readout
import PocketCalc.Rpn.Convert
import PocketCalc.Rpn.Eval
import PocketCalc.Token.Lexer
import PocketCalc.Token.Normalize

/-!
# Evaluation of an expression

An expression as it is typed goes through its plain spelling, its tokens and its RPN to a value,
and the value to the text that shows it.  The first stage that fails gives the error.
-/

namespace PocketCalc

/-- How a value came about. -/
structure Trace where
  /-- The tokens of the expression. -/
  tokens : List Char
  /-- The same in RPN. -/
  rpn : List Char
deriving DecidableEq

/-- The outcome of an expression that has a value. -/
structure Evaluation where
  /-- The text that shows the value. -/
  text : List Char
  /-- The value. -/
  value : Float
  /-- How the value came about. -/
  trace : Trace

/-- Evaluates an expression and shows its value with at most `places` places. -/
def evaluate (expression : List Char) (places : Nat) : Except CalcError Evaluation := do
  let tokens ← (tokenize (normalize expression)).mapError .lexical
  let rpn ← (Rpn.ofTokens tokens).mapError .grammatical
  let value ← (Rpn.eval rpn).mapError .evaluation
  let text ← (readout value places).mapError .format
  return ⟨text, value, ⟨Token.textOfList tokens, Token.textOfList rpn⟩⟩

end PocketCalc
