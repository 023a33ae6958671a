import PocketCalc.Error
import PocketCalc.Text.Blank
import PocketCalc.Token.Basic
import PocketCalc.Token.Lexeme

/-!
# From text to tokens

`tokenize` reads the lexemes of a text from left to right.  Blanks are skipped, a run of digits and
points is a number whatever it looks like, a word must be the name of a function, and the first
lexeme that is nothing of all this is reported by its position.

Only here is it settled whether a minus sign subtracts or stands in front of an operand, from the
token before it.
-/

namespace PocketCalc

/-- After this token, or at the start, a minus sign stands in front of an operand. -/
def startsOperand : Option Token → Bool
  | none | some (.op _) | some .neg | some .lparen | some .comma => true
  | _ => false

/-- The token that a mark stands for after the token `before`. -/
def Token.ofMark? (before : Option Token) (c : Char) : Option Token :=
  match BinOp.ofSymbol? c with
  | some o => some (if o = .sub ∧ startsOperand before then .neg else .op o)
  | none =>
    if c = '(' then some .lparen
    else if c = ')' then some .rparen
    else if c = ',' then some .comma
    else none

/-- The tokens of lexemes that start at the character `position`, after the token `before`. -/
def tokensOf (before : Option Token) (position : Nat) :
    List Lexeme → Except LexError (List Token)
  | [] => .ok []
  | .word letters :: rest =>
    match Func.ofName? letters with
    | some f =>
      (tokensOf (some (.func f)) (position + letters.length) rest).map (.func f :: ·)
    | none => .error (.unknownWord letters position)
  | .figures text :: rest =>
    (tokensOf (some (.number text)) (position + text.length) rest).map (.number text :: ·)
  | .mark c :: rest =>
    if Text.isBlank c then tokensOf before (position + 1) rest
    else
      match Token.ofMark? before c with
      | some token => (tokensOf (some token) (position + 1) rest).map (token :: ·)
      | none => .error (.unexpected c position)

/-- The tokens of a text in plain spelling. -/
def tokenize (text : List Char) : Except LexError (List Token) := tokensOf none 0 (lexemes text)

end PocketCalc
