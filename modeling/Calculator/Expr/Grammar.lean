import Calculator.Expr
import Calculator.Token
/-!
# The grammar of expressions

A sum is a chain of products joined by `+` and `-`, and a product a chain of operands joined by
`*` and `/`; both group to the left. An operand is a number or a group, with or without a unary
minus. Nesting is not limited here.
-/

namespace Calculator

/-- The ranks of the grammar, from the loosest to the tightest. -/
inductive Rank where
  | sum
  | product
  | operand
  deriving Repr, DecidableEq

/-- The tokens are an expression of the rank, with the given tree. -/
inductive Derives : Rank → List Token → Expr → Prop where
  | number (x : Float) : Derives .operand [.number x] (.number x)
  | minusNumber (x : Float) : Derives .operand [.minus, .number x] (.number (-x))
  | group {ts : List Token} {e : Expr} (inner : Derives .sum ts e) :
      Derives .operand (.leftParen :: ts ++ [.rightParen]) (.group e)
  | minusGroup {ts : List Token} {e : Expr} (inner : Derives .sum ts e) :
      Derives .operand (.minus :: .leftParen :: ts ++ [.rightParen]) (.negated e)
  | ofOperand {ts : List Token} {e : Expr} (operand : Derives .operand ts e) : Derives .product ts e
  | product {ts us : List Token} {l r : Expr} (op : Operator) (tight : op.isMultiplicative = true)
      (left : Derives .product ts l) (right : Derives .operand us r) :
      Derives .product (ts ++ .ofOperator op :: us) (.binary l op r)
  | ofProduct {ts : List Token} {e : Expr} (product : Derives .product ts e) : Derives .sum ts e
  | sum {ts us : List Token} {l r : Expr} (op : Operator) (loose : op.isMultiplicative = false)
      (left : Derives .sum ts l) (right : Derives .product us r) :
      Derives .sum (ts ++ .ofOperator op :: us) (.binary l op r)

end Calculator
