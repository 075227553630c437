import Calculator.Expr
import Calculator.Token
/-!
# The tokens of a tree

A tree read back from left to right. A number with its sign bit set was read after a unary minus.
-/

namespace Calculator

/-- A number as it was read. -/
def signedTokens (x : Float) : List Token :=
  if Number.isNegative x then [.minus, .number (-x)] else [.number x]

/-- The tokens of a tree from left to right; a missing operand has none. -/
def Expr.tokens : Expr → List Token
  | number x => signedTokens x
  | slot => []
  | group inner => .leftParen :: inner.tokens ++ [.rightParen]
  | negated inner => .minus :: .leftParen :: inner.tokens ++ [.rightParen]
  | binary left op right => left.tokens ++ .ofOperator op :: right.tokens

end Calculator
