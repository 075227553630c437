import Calculator.Calculation
import Calculator.Expr.Display
import Calculator.Token.Echo
/-!
# The report of a calculation

The first line echoes the expression with its result. The tree and the steps follow on request.
-/

namespace Calculator

/-- The lines that number the steps, from `number` on. -/
def stepLines (number : Nat) : List Step → String → String
  | [], written => written
  | s :: steps, written =>
    stepLines (number + 1) steps
      (written ++ "  Step " ++ toString number ++ ": " ++ s.operation ++ " = " ++ Number.text s.result ++ "\n")

/-- The report of a finished calculation with the steps it took. -/
def Calculation.report (c : Calculation) (steps : List Step) (details tree : Bool) : String :=
  echo c.tokens ++ " = " ++ Number.text c.result ++ "\n"
    ++ (if tree then "  Tree: " ++ c.tree.text ++ "\n" else "")
    ++ (if details && !steps.isEmpty then stepLines 1 steps "  Step-by-step evaluation:\n" else "")

/-- Calculates a text and reports on it. -/
def render (text : String) (details tree : Bool) : Except CalcError String :=
  let (outcome, t) := runCalculation text (.empty details)
  outcome.map fun c => c.report t.steps.toList details tree

end Calculator
