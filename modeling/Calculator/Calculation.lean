import Calculator.Eval.Machine
import Calculator.Expr.Build
import Calculator.Token.Scan
/-!
# Calculations

A calculation takes a text through tokens and tree to its value, and ends with the first error on
the way.
-/

namespace Calculator

/-- Why a text has no value. -/
inductive CalcError where
  | lex (error : LexError)
  | parse (error : ParseError)
  | evaluation (error : EvalError)
  /-- The text holds nothing but blanks. -/
  | emptyInput
  deriving DecidableEq

namespace CalcError

/-- The error of the part that failed, in its own words. -/
def cause? : CalcError → Option String
  | lex e => some e.message
  | parse e => some e.message
  | evaluation e => some e.message
  | emptyInput => none

/-- The wording of an error, which says first what part failed. -/
def message : CalcError → String
  | lex e => "lex error: " ++ e.message
  | parse e => "parse error: " ++ e.message
  | evaluation e => "evaluation error: " ++ e.message
  | emptyInput => "no valid calculation literals found"

end CalcError

/-- What a calculation produces on its way. -/
structure Calculation where
  tokens : List Token
  tree : Expr
  result : Float
  deriving DecidableEq

def parse (text : String) : Except CalcError (List Token × Expr) :=
  match tokenize text with
  | .error e => .error (.lex e)
  | .ok [] => .error .emptyInput
  | .ok tokens =>
    match build tokens with
    | .error e => .error (.parse e)
    | .ok tree => .ok (tokens, tree)

/-- The whole calculation of a text, and the trace with the steps taken, also those before an error. -/
def runCalculation (text : String) (t : Trace) : Except CalcError Calculation × Trace :=
  match parse text with
  | .error e => (.error e, t)
  | .ok (tokens, tree) =>
    match evaluateTraced tree t with
    | (.ok x, t) => (.ok ⟨tokens, tree, x⟩, t)
    | (.error e, t) => (.error (.evaluation e), t)

/-- The value of a text, and the trace with the steps taken. -/
def calculateTraced (text : String) (t : Trace) : Except CalcError Float × Trace :=
  let (outcome, t) := runCalculation text t
  (outcome.map Calculation.result, t)

def calculate (text : String) : Except CalcError Float := (calculateTraced text (.empty false)).1

end Calculator
