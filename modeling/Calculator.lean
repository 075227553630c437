import Calculator.Eval.Meaning
import Calculator.Expr.Grammar
import Calculator.Expr.Tokens
import Calculator.Main
import Calculator.Proofs.Expr.Blame
import Calculator.Proofs.Expr.Termination
import Calculator.Proofs.Grouping
import Calculator.Proofs.Rereading
import Calculator.Proofs.Expr.Extension
import Calculator.Proofs.History
import Calculator.Proofs.Console.Agreement
import Calculator.Proofs.Expr.Parentheses
import Calculator.Proofs.Expr.Precedence
import Calculator.Proofs.Expr.Unambiguity
import Calculator.Proofs.Console.Invocation
