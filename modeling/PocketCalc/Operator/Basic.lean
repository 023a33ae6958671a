/-!
# Operators, functions and constants

The five binary operators, the six functions and the two constants of the calculator: how they are
spelled and what they compute.
-/

namespace PocketCalc

/-- A binary operator. -/
inductive BinOp
  | add | sub | mul | div | pow
deriving DecidableEq

namespace BinOp

/-- All binary operators. -/
def all : List BinOp := [add, sub, mul, div, pow]

/-- The character that an operator is written with. -/
def symbol : BinOp → Char
  | add => '+'
  | sub => '-'
  | mul => '*'
  | div => '/'
  | pow => '^'

/-- The operator written with the character `c`. -/
def ofSymbol? (c : Char) : Option BinOp := all.find? fun op => decide (op.symbol = c)

/-- The operator that the printed sign `c` stands for; these signs are no symbols. -/
def ofGlyph? : Char → Option BinOp
  | '×' => some mul
  | '÷' => some div
  | '−' => some sub
  | _ => none

/-- The value of `a op b`; a division by zero follows the rules of doubles. -/
def apply : BinOp → Float → Float → Float
  | add, a, b => a + b
  | sub, a, b => a - b
  | mul, a, b => a * b
  | div, a, b => a / b
  | pow, a, b => Float.pow a b

@[simp] theorem ofSymbol?_symbol (op : BinOp) : ofSymbol? op.symbol = some op := by
  cases op <;> decide

theorem symbol_of_ofSymbol? {c : Char} {op : BinOp} (h : ofSymbol? c = some op) :
    op.symbol = c := by
  simpa using List.find?_some h

end BinOp

/-- `c` is an operator key: a symbol or a printed sign. -/
def isOperatorChar (c : Char) : Bool := (BinOp.ofSymbol? c).isSome || (BinOp.ofGlyph? c).isSome

/-- The operator keys: five symbols and three printed signs. -/
theorem isOperatorChar_iff {c : Char} :
    isOperatorChar c = true ↔ c ∈ ['+', '-', '*', '/', '^', '×', '÷', '−'] := by
  constructor
  · intro h
    simp only [isOperatorChar, Bool.or_eq_true, Option.isSome_iff_exists] at h
    rcases h with ⟨op, h⟩ | ⟨op, h⟩
    · rw [← BinOp.symbol_of_ofSymbol? h]
      cases op <;> decide
    · revert h
      unfold BinOp.ofGlyph?
      split <;> simp
  · intro h
    simp only [List.mem_cons, List.not_mem_nil, or_false] at h
    rcases h with rfl | rfl | rfl | rfl | rfl | rfl | rfl | rfl <;> decide

/-- A function of one argument. -/
inductive Func
  | sin | cos | tan | log | ln | sqrt
deriving DecidableEq

namespace Func

/-- All functions. -/
def all : List Func := [sin, cos, tan, log, ln, sqrt]

/-- The name of a function. -/
def name : Func → List Char
  | sin => ['s', 'i', 'n']
  | cos => ['c', 'o', 's']
  | tan => ['t', 'a', 'n']
  | log => ['l', 'o', 'g']
  | ln => ['l', 'n']
  | sqrt => ['s', 'q', 'r', 't']

/-- The function with the given name, upper and lower case told apart. -/
def ofName? (word : List Char) : Option Func := all.find? fun f => decide (f.name = word)

/-- The value of a function; angles are in radians and `log` is to base ten. -/
def apply : Func → Float → Float
  | sin, x => x.sin
  | cos, x => x.cos
  | tan, x => x.tan
  | log, x => x.log10
  | ln, x => x.log
  | sqrt, x => x.sqrt

@[simp] theorem ofName?_name (f : Func) : ofName? f.name = some f := by
  cases f <;> decide

theorem name_of_ofName? {word : List Char} {f : Func} (h : ofName? word = some f) :
    f.name = word := by
  simpa using List.find?_some h

end Func

/-- A named number. -/
inductive Constant
  | pi | e
deriving DecidableEq

namespace Constant

/-- All constants. -/
def all : List Constant := [pi, e]

/-- The character that a constant is typed with. -/
def symbol : Constant → Char
  | pi => 'π'
  | e => 'e'

/-- The word that a constant is written as. -/
def word : Constant → List Char
  | pi => ['p', 'i']
  | e => ['e']

/-- The number that a constant stands for: the shortest decimal of the double nearest to it. -/
def numeral : Constant → List Char
  | pi => ['3', '.', '1', '4', '1', '5', '9', '2', '6', '5', '3', '5', '8', '9', '7', '9', '3']
  | e => ['2', '.', '7', '1', '8', '2', '8', '1', '8', '2', '8', '4', '5', '9', '0', '4', '5']

/-- The constant typed with the character `c`. -/
def ofSymbol? (c : Char) : Option Constant := all.find? fun k => decide (k.symbol = c)

/-- The constant written as the given word. -/
def ofWord? (word : List Char) : Option Constant := all.find? fun k => decide (k.word = word)

@[simp] theorem ofSymbol?_symbol (k : Constant) : ofSymbol? k.symbol = some k := by
  cases k <;> decide

theorem symbol_of_ofSymbol? {c : Char} {k : Constant} (h : ofSymbol? c = some k) :
    k.symbol = c := by
  simpa using List.find?_some h

theorem word_of_ofWord? {w : List Char} {k : Constant} (h : ofWord? w = some k) : k.word = w := by
  simpa using List.find?_some h

end Constant

end PocketCalc
