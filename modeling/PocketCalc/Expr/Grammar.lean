import PocketCalc.Expr.Basic

/-!
# The grammar of expressions

`Derives level ts e` says that the tokens `ts` are an expression with the tree `e`.  There is a
level for each precedence of binary operators; `+ - * /` group from the left and `^` from the
right.  A minus sign and a function take the operand that follows, also without parentheses, but no
minus sign follows a function directly.
-/

namespace PocketCalc

/-- The levels of the grammar, the loosest first. -/
inductive Level
  | sum | product | power | operand
deriving DecidableEq

/-- The tokens are an expression of the given level with the given tree. -/
inductive Derives : Level → List Token → Expr → Prop
  /-- A number. -/
  | number (text : List Char) : Derives .operand [.number text] (.number text)
  /-- An expression in parentheses. -/
  | group {ts : List Token} {e : Expr} :
    Derives .sum ts e → Derives .operand (.lparen :: ts ++ [.rparen]) e
  /-- A minus sign and its operand. -/
  | neg {ts : List Token} {e : Expr} :
    Derives .operand ts e → Derives .operand (.neg :: ts) (.neg e)
  /-- A function and its argument. -/
  | call (f : Func) {ts : List Token} {e : Expr} :
    ts.head? ≠ some .neg → Derives .operand ts e →
      Derives .operand (.func f :: ts) (.call f e)
  /-- An operand is a power. -/
  | ofOperand {ts : List Token} {e : Expr} : Derives .operand ts e → Derives .power ts e
  /-- A power, grouped from the right. -/
  | power {ts us : List Token} {l r : Expr} :
    Derives .operand ts l → Derives .power us r →
      Derives .power (ts ++ .op .pow :: us) (.binary .pow l r)
  /-- A power is a product. -/
  | ofPower {ts : List Token} {e : Expr} : Derives .power ts e → Derives .product ts e
  /-- A product or quotient, grouped from the left. -/
  | product {op : BinOp} {ts us : List Token} {l r : Expr} :
    op = .mul ∨ op = .div → Derives .product ts l → Derives .power us r →
      Derives .product (ts ++ .op op :: us) (.binary op l r)
  /-- A product is a sum. -/
  | ofProduct {ts : List Token} {e : Expr} : Derives .product ts e → Derives .sum ts e
  /-- A sum or difference, grouped from the left. -/
  | sum {op : BinOp} {ts us : List Token} {l r : Expr} :
    op = .add ∨ op = .sub → Derives .sum ts l → Derives .product us r →
      Derives .sum (ts ++ .op op :: us) (.binary op l r)

end PocketCalc
