import Calculator.Operator
/-!
# Expression trees

A tree keeps the parentheses that were written, so that it can be shown as it was read. Chains of
operators lean to the left and can be as deep as an expression is long.
-/

namespace Calculator

/-- An expression. Equal trees have the same numbers bit for bit, whereas `==` compares numbers as
numbers: there the two zeros are alike, and what is not a number differs from itself. -/
inductive Expr where
  | number (value : Float)
  | group (inner : Expr)
  | negated (inner : Expr)
  | binary (left : Expr) (op : Operator) (right : Expr)
  /-- An operand yet to come; finished trees have none. -/
  | slot
  deriving BEq, DecidableEq

namespace Expr

/-- How many groups stand inside one another at most. -/
def depth : Expr → Nat
  | number _ | slot => 0
  | group inner | negated inner => inner.depth + 1
  | binary left _ right => max left.depth right.depth

/-- A binary operation whose right operand is yet to come. -/
def pending (left : Expr) (op : Operator) : Expr := binary left op slot

/-- How many steps a walk over the tree takes: one for each number or group, and a second one for each
operation, which is met once before its operands and once after. -/
def walkLength : Expr → Nat
  | number _ | slot => 1
  | group inner => inner.walkLength + 1
  | negated inner => inner.walkLength + 2
  | binary left _ right => left.walkLength + right.walkLength + 2

end Expr

end Calculator
