import Calculator.Console.Options
import Calculator.Console.Session
/-!
# The program

With an expression among its arguments the program reports on it and ends; without one it holds an
interactive session.
-/

namespace Calculator.Console

/-- An expression that has no value, and why. -/
def Failure.ofCalcError (expression : String) (e : CalcError) : Failure :=
  ⟨"cannot calculate \"" ++ expression ++ "\"", e.message :: e.cause?.toList⟩

def oneShot (expression : String) (details tree : Bool) : Outcome :=
  match render expression details tree with
  | .ok output => ⟨0, output, ""⟩
  | .error e => (Failure.ofCalcError expression e).outcome ""

def helpText : String := usage ++ "\n" ++ helpNote ++ "\n"

/-- A run of the program on its arguments and input. -/
def run (args : List String) (stdin : List UInt8) : Outcome :=
  match Options.initial.read args with
  | .help => ⟨0, helpText, ""⟩
  | .invalid failure => failure.outcome ""
  | .calculate ⟨details, tree, some expression⟩ => oneShot expression details tree
  | .calculate ⟨_, tree, none⟩ => interactive tree stdin

end Calculator.Console
