/-!
# Lexemes

A text is cut into lexemes without regard to what they mean: the maximal runs of letters (words),
the maximal runs of digits and points (figures), and every other character on its own (marks).
The texts of the lexemes make up the text they are cut from (`flatMap_text_lexemes`).
-/

namespace PocketCalc

/-- `c` is an ASCII letter. -/
def isLetter (c : Char) : Bool := c.isAlpha

/-- `c` is an ASCII digit or a point. -/
def isFigure (c : Char) : Bool := c.isDigit || c == '.'

/-- A piece of a text that is read as a whole. -/
inductive Lexeme
  /-- A run of letters. -/
  | word (letters : List Char)
  /-- A run of digits and points. -/
  | figures (text : List Char)
  /-- A character of any other kind. -/
  | mark (c : Char)
deriving DecidableEq

namespace Lexeme

/-- The text that a lexeme was cut from. -/
def text : Lexeme → List Char
  | word letters => letters
  | figures text => text
  | mark c => [c]

/-- The lexeme that a character makes on its own. -/
def ofChar (c : Char) : Lexeme :=
  if isLetter c then word [c] else if isFigure c then figures [c] else mark c

/-- Lexemes with a character put in front, which joins the first of them if they make one run. -/
def join (c : Char) : List Lexeme → List Lexeme
  | word letters :: rest =>
    if isLetter c then word (c :: letters) :: rest else ofChar c :: word letters :: rest
  | figures text :: rest =>
    if isFigure c then figures (c :: text) :: rest else ofChar c :: figures text :: rest
  | rest => ofChar c :: rest

end Lexeme

/-- The lexemes of a text. -/
def lexemes : List Char → List Lexeme
  | [] => []
  | c :: rest => Lexeme.join c (lexemes rest)

/-! ### Small laws -/

namespace Lexeme

@[simp] theorem text_word (letters : List Char) : (word letters).text = letters := rfl

@[simp] theorem text_figures (text : List Char) : (figures text).text = text := rfl

@[simp] theorem text_mark (c : Char) : (mark c).text = [c] := rfl

@[simp] theorem text_ofChar (c : Char) : (ofChar c).text = [c] := by
  simp only [ofChar]
  split
  · rfl
  · split <;> rfl

theorem flatMap_text_join (c : Char) (ls : List Lexeme) :
    (join c ls).flatMap text = c :: ls.flatMap text := by
  fun_cases join c ls <;> simp

end Lexeme

/-- Nothing is lost and nothing added. -/
@[simp] theorem flatMap_text_lexemes (text : List Char) :
    (lexemes text).flatMap Lexeme.text = text := by
  induction text with
  | nil => rfl
  | cons c rest ih => simp [lexemes, Lexeme.flatMap_text_join, ih]

end PocketCalc
