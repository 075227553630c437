import Calculator.Console.Outcome
/-!
# Options

The arguments of the program: flags in any order, and at most one expression. Arguments are read
from left to right, and the first that asks for help or is wrong decides.
-/

namespace Calculator.Console

def usage : String := "Usage: rustcalc [--details] [--tree] \"3 * 3 + 4\""

/-- What help adds to the usage. -/
def helpNote : String := "Without an expression, reads one expression per line from stdin."

/-- What the arguments ask for. -/
structure Options where
  details : Bool
  tree : Bool
  expression : Option String
  deriving Repr, DecidableEq

/-- What reading the arguments comes to. -/
inductive Request where
  | calculate (options : Options)
  | help
  | invalid (failure : Failure)
  deriving Repr, DecidableEq

namespace Options

def initial : Options := ⟨false, false, none⟩

/-- Reads the arguments after those that gave `o`. -/
def read (o : Options) : List String → Request
  | [] => .calculate o
  | arg :: args =>
    if arg = "--details" ∨ arg = "-d" then read { o with details := true } args
    else if arg = "--tree" ∨ arg = "-t" then read { o with tree := true } args
    else if arg = "--help" ∨ arg = "-h" then .help
    else if arg.startsWith "--" then .invalid ⟨"unknown option '" ++ arg ++ "'\n" ++ usage, []⟩
    else if o.expression.isSome then .invalid ⟨"invalid number of arguments\n" ++ usage, []⟩
    else read { o with expression := some arg } args

end Options

end Calculator.Console
