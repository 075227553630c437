import Calculator.Expr
/-!
# Trees that await their last operand

After an operator the tree read so far has one slot left, and it is never deep: it is the right
operand of the root, or of the right operand of the root when a tighter operation has been
opened below a looser one. Taking the next operand and operator rearranges only these two
nodes, which is all that precedence and grouping to the left need.
-/

namespace Calculator

/-- The tree `left operator _`, or `left operator (l o _)` when `opened` is `(l, o)`. -/
structure PartialTree where
  left : Expr
  operator : Operator
  opened : Option (Expr × Operator)
  deriving DecidableEq

namespace PartialTree

def start (left : Expr) (op : Operator) : PartialTree := ⟨left, op, none⟩

/-- Fills the slot with the last operand. -/
def complete (p : PartialTree) (operand : Expr) : Expr :=
  match p.opened with
  | none => .binary p.left p.operator operand
  | some (l, o) => .binary p.left p.operator (.binary l o operand)

/-- Takes an operand and the operator after it. A looser operator closes everything before it. A
tighter one closes the operation of its own rank before it, if there is one, and else opens one below the
root. -/
def merge (p : PartialTree) (operand : Expr) (op : Operator) : PartialTree :=
  if op.isMultiplicative then
    match p.opened with
    | some (l, o) => { p with opened := some (.binary l o operand, op) }
    | none =>
      if p.operator.isMultiplicative then start (.binary p.left p.operator operand) op
      else { p with opened := some (operand, op) }
  else start (p.complete operand) op

def toExpr (p : PartialTree) : Expr := p.complete .slot

end PartialTree

end Calculator
