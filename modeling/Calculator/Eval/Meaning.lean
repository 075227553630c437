import Calculator.Eval.Machine
/-!
# What a tree means

The value of a tree by recursion on it: left operand, right operand, then the operation. The steps are the operations
carried out, in that order, up to the first error. Main statement: the machine gives the same value
or error, and records the same steps.
-/

namespace Calculator

namespace Expr

/-- The value of a tree or its first error, and the operations before it. -/
def meaning : Expr → Except EvalError Float × List Step
  | number x => (.ok x, [])
  | slot => (.error .emptySlot, [])
  | group inner => inner.meaning
  | negated inner =>
    match inner.meaning with
    | (.ok x, steps) => (.ok (-x), steps ++ [⟨negationText x, -x⟩])
    | (.error e, steps) => (.error e, steps)
  | binary left op right =>
    match left.meaning with
    | (.error e, steps) => (.error e, steps)
    | (.ok x, steps) =>
      match right.meaning with
      | (.error e, more) => (.error e, steps ++ more)
      | (.ok y, more) =>
        match op.apply x y with
        | .ok z => (.ok z, steps ++ more ++ [⟨operationText x op y, z⟩])
        | .error e => (.error e, steps ++ more)

end Expr

/-- What the machine does after a tree has given an outcome. -/
def resume (tasks : List Task) (values : List Float) (t : Trace) :
    Except EvalError Float × List Step → Except EvalError Float × Trace
  | (.ok x, steps) => runTasks tasks (x :: values) (t.addSteps steps)
  | (.error e, steps) => (.error e, t.addSteps steps)

/-- Visiting a tree leaves its value on the stack and its steps in the trace, whatever else is to be done. -/
theorem runTasks_visit (e : Expr) (tasks : List Task) (values : List Float) (t : Trace) :
    runTasks (.visit e :: tasks) values t = resume tasks values t e.meaning := by
  induction e generalizing tasks values t with
  | number x => rw [runTasks, Expr.meaning, resume, Trace.addSteps_nil]
  | slot => rw [runTasks, Expr.meaning, resume, Trace.addSteps_nil]
  | group inner ih => rw [runTasks, ih, Expr.meaning]
  | negated inner ih =>
    rw [runTasks, ih, Expr.meaning]
    rcases inner.meaning with ⟨_ | x, steps⟩
    · rfl
    · simp only [resume]
      rw [runTasks, Trace.addStep_eq_addSteps, Trace.addSteps_append]
  | binary left op right ihl ihr =>
    rw [runTasks, ihl, Expr.meaning]
    rcases left.meaning with ⟨_ | x, steps⟩
    · rfl
    · simp only [resume]
      rw [ihr]
      rcases right.meaning with ⟨_ | y, more⟩
      · simp only [resume, Trace.addSteps_append]
      · simp only [resume]
        rw [runTasks]
        cases op.apply x y with
        | error e => simp only [Trace.addSteps_append]
        | ok z => simp only [Trace.addStep_eq_addSteps, Trace.addSteps_append]

/-- The machine computes the meaning of a tree. -/
theorem evaluateTraced_eq_meaning (e : Expr) (t : Trace) :
    evaluateTraced e t = (e.meaning.1, t.addSteps e.meaning.2) := by
  rw [evaluateTraced, runTasks_visit]
  rcases e.meaning with ⟨_ | x, steps⟩
  · rfl
  · rw [resume, runTasks]

end Calculator
