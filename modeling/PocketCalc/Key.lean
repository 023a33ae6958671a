import PocketCalc.Operator.Basic

/-!
# Keys

The keys of the calculator, read from the text on them, and the character classes that decide
where a multiplication sign may be left out.
-/

namespace PocketCalc

/-- A key. -/
inductive Key
  /-- A decimal digit. -/
  | digit (c : Char) (isDigit : c.isDigit = true)
  /-- The decimal point. -/
  | point
  /-- A binary operator, as a symbol or as a printed sign. -/
  | operator (c : Char) (isOperator : isOperatorChar c = true)
  /-- An opening parenthesis. -/
  | lparen
  /-- A closing parenthesis. -/
  | rparen
  /-- A constant. -/
  | constant (k : Constant)
  /-- A function together with the parenthesis that opens its argument. -/
  | func (f : Func)
deriving DecidableEq

namespace Key

/-- The key with a single character on it. -/
def ofChar? (c : Char) : Option Key :=
  if h : c.isDigit = true then some (digit c h)
  else if c = '.' then some point
  else if c = '(' then some lparen
  else if c = ')' then some rparen
  else
    match Constant.ofSymbol? c with
    | some k => some (constant k)
    | none => if h : isOperatorChar c = true then some (operator c h) else none

/-- The key with the given text on it. -/
def read? : List Char → Option Key
  | [c] => ofChar? c
  | text =>
    if text.getLast? = some '(' then (Func.ofName? text.dropLast).map func else none

/-- The text on a key, which is also what it types. -/
def text : Key → List Char
  | digit c _ => [c]
  | point => ['.']
  | operator c _ => [c]
  | lparen => ['(']
  | rparen => [')']
  | constant k => [k.symbol]
  | func f => f.name ++ ['(']

/-- The key types an operator. -/
def isOperator : Key → Bool
  | operator _ _ => true
  | _ => false

/-- The key opens something that a value in front of it is multiplied with. -/
def opensGroup : Key → Bool
  | func _ | lparen | constant _ => true
  | _ => false

/-- The key can be the first of a number. -/
def startsNumber : Key → Bool
  | digit _ _ | point => true
  | _ => false

/-- The text on a key is read as that key. -/
@[simp] theorem read?_text (key : Key) : read? key.text = some key := by
  cases key with
  | digit c h => simp [text, read?, ofChar?, h]
  | point => decide
  | operator c h =>
    have hc := isOperatorChar_iff.1 h
    simp only [List.mem_cons, List.not_mem_nil, or_false] at hc
    rcases hc with rfl | rfl | rfl | rfl | rfl | rfl | rfl | rfl <;> rfl
  | lparen => decide
  | rparen => decide
  | constant k => cases k <;> decide
  | func f => cases f <;> decide

end Key

/-- `c` is typed for a constant. -/
def isConstantChar (c : Char) : Bool := (Constant.ofSymbol? c).isSome

/-- A value can end in `c`. -/
def endsValue (c : Char) : Bool := c.isDigit || c == ')' || isConstantChar c

end PocketCalc
