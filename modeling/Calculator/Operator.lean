/-!
# Operators

The four binary operators. Multiplication and division bind tighter than addition and
subtraction; within one rank a chain groups to the left.
-/

namespace Calculator

/-- The operator of a binary operation. -/
inductive Operator where
  | plus
  | minus
  | multiply
  | divide
  deriving Repr, DecidableEq

namespace Operator

/-- The character an operator is written as. -/
def symbol : Operator → Char
  | plus => '+'
  | minus => '-'
  | multiply => '*'
  | divide => '/'

/-- An operator's text is its symbol alone. -/
def text (op : Operator) : String := op.symbol.toString

/-- The operators that bind tighter. -/
def isMultiplicative : Operator → Bool
  | plus | minus => false
  | multiply | divide => true

end Operator

end Calculator
