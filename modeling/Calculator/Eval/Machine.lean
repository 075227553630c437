import Calculator.Eval.Operation
import Calculator.Eval.Trace
import Calculator.Expr
/-!
# Evaluation

A tree is evaluated left operand first, by a machine with a list of tasks and a stack of values, so
that a deep tree costs no more room than its size. The first error ends the evaluation; the
steps recorded before it stay in the trace.
-/

namespace Calculator

/-- What the machine has still to do. -/
inductive Task where
  | visit (e : Expr)
  | negate
  | apply (op : Operator)

namespace Task

def weight : Task → Nat
  | visit e => e.walkLength
  | negate | apply _ => 1

end Task

/-- Carries out the tasks on the stack of values. -/
def runTasks : List Task → List Float → Trace → Except EvalError Float × Trace
  | [], x :: _, t => (.ok x, t)
  | [], [], t => (.error .missingOperand, t)
  | .visit (.number x) :: tasks, values, t => runTasks tasks (x :: values) t
  | .visit (.group inner) :: tasks, values, t => runTasks (.visit inner :: tasks) values t
  | .visit (.negated inner) :: tasks, values, t => runTasks (.visit inner :: .negate :: tasks) values t
  | .visit (.binary left op right) :: tasks, values, t =>
    runTasks (.visit left :: .visit right :: .apply op :: tasks) values t
  | .visit .slot :: _, _, t => (.error .emptySlot, t)
  | .negate :: tasks, x :: values, t => runTasks tasks (-x :: values) (t.addStep (negationText x) (-x))
  | .negate :: _, [], t => (.error .missingOperand, t)
  | .apply op :: tasks, right :: left :: values, t =>
    match op.apply left right with
    | .ok x => runTasks tasks (x :: values) (t.addStep (operationText left op right) x)
    | .error e => (.error e, t)
  | .apply _ :: _, _, t => (.error .missingOperand, t)
termination_by tasks => tasks.foldr (fun task steps => task.weight + steps) 0
decreasing_by all_goals simp [Task.weight, Expr.walkLength] <;> omega

/-- The value of a tree, and the trace with the steps taken. -/
def evaluateTraced (e : Expr) (t : Trace) : Except EvalError Float × Trace := runTasks [.visit e] [] t

def evaluate (e : Expr) : Except EvalError Float := (evaluateTraced e (.empty false)).1

end Calculator
