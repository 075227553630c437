import Calculator.Number.Text
import Calculator.Operator
/-!
# Operations on numbers

The four operations on doubles, rounded as usual. A result that is not finite is an error, and so
is division by a zero of either sign.
-/

namespace Calculator

/-- Why an evaluation has no result. The last two never come of a finished tree. -/
inductive EvalError where
  | divisionByZero
  /-- The result of the operation shown is not finite. -/
  | overflow (operation : String)
  /-- An operand of the tree is missing. -/
  | emptySlot
  /-- An operation came up before its operands. -/
  | missingOperand
  deriving Repr, DecidableEq

namespace EvalError

def message : EvalError → String
  | divisionByZero => "division by zero"
  | overflow operation => "result of " ++ operation ++ " is not finite"
  | emptySlot => "empty operand slot reached the evaluator"
  | missingOperand => "operand evaluated before its operator"

/-- The errors that show an unfinished tree rather than a fault of the expression. -/
def isDefect : EvalError → Bool
  | divisionByZero | overflow _ => false
  | emptySlot | missingOperand => true

end EvalError

def operationText (left : Float) (op : Operator) (right : Float) : String :=
  Number.text left ++ " " ++ op.text ++ " " ++ Number.text right

def negationText (x : Float) : String := "-(" ++ Number.text x ++ ")"

/-- The rounded result, finite or not. -/
def Operator.compute : Operator → Float → Float → Float
  | .plus, x, y => x + y
  | .minus, x, y => x - y
  | .multiply, x, y => x * y
  | .divide, x, y => x / y

/-- The result of an operation, if it has a finite one. -/
def Operator.apply (op : Operator) (left right : Float) : Except EvalError Float :=
  if op = .divide ∧ right == 0 then .error .divisionByZero
  else if (op.compute left right).isFinite then .ok (op.compute left right)
  else .error (.overflow (operationText left op right))

end Calculator
