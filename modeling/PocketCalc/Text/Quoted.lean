import PocketCalc.Text.Hidden

/-!
# Quoted texts

A text inside a message stands between double quotes.  Quotes, backslashes and the usual control
characters are written with a backslash, other characters without a visible form by their code
point, and all others as they are.
-/

namespace PocketCalc.Text

/-- A character as it stands between the quotes. -/
def quotedChar (c : Char) : List Char :=
  if c = '\x00' then ['\\', '0']
  else if c = '\t' then ['\\', 't']
  else if c = '\r' then ['\\', 'r']
  else if c = '\n' then ['\\', 'n']
  else if c = '"' ∨ c = '\\' then ['\\', c]
  else if isHidden c then ['\\', 'u', '\x7b'] ++ Nat.toDigits 16 c.toNat ++ ['\x7d']
  else [c]

/-- The text between double quotes. -/
def quoted (text : List Char) : List Char := '"' :: text.flatMap quotedChar ++ ['"']

end PocketCalc.Text
