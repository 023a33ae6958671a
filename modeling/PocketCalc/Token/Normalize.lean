import PocketCalc.Operator.Basic
import PocketCalc.Token.Lexeme

/-!
# Plain spelling

An expression may be typed with the printed signs `×`, `÷`, `−` and with the constants `π`,
`pi` and `e`.  `normalize` puts the operator symbols and the decimal numbers in their place.  A
constant in letters counts only as a whole word.

The plain lexemes of a text are written without a gap.  Hence a constant right beside a digit, a
point or another constant becomes part of one number.
-/

namespace PocketCalc

namespace Lexeme

/-- The lexeme that a mark is in plain spelling. -/
def plainMark (c : Char) : Lexeme :=
  match BinOp.ofGlyph? c with
  | some op => mark op.symbol
  | none => if c = Constant.pi.symbol then figures Constant.pi.numeral else mark c

/-- A lexeme in plain spelling. -/
def plain : Lexeme → Lexeme
  | word letters =>
    match Constant.ofWord? letters with
    | some k => figures k.numeral
    | none => word letters
  | figures text => figures text
  | mark c => plainMark c

end Lexeme

/-- A text in plain spelling. -/
def normalize (text : List Char) : List Char := (lexemes text).flatMap fun l => l.plain.text

end PocketCalc
