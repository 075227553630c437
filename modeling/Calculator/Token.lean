import Calculator.Number.Text
import Calculator.Operator
/-!
# Tokens

What an expression is made of: numbers without a sign, the four operator signs and the two
parentheses.
-/

namespace Calculator

/-- One number, operator sign or parenthesis. -/
inductive Token where
  | number (value : Float)
  | plus
  | minus
  | multiply
  | divide
  | leftParen
  | rightParen
  deriving DecidableEq

namespace Token

/-- The token a single character stands for, if it is a symbol. -/
def ofSymbol? : Char → Option Token
  | '+' => some plus
  | '-' => some minus
  | '*' => some multiply
  | '/' => some divide
  | '(' => some leftParen
  | ')' => some rightParen
  | _ => none

/-- The binary operator a token may stand for. -/
def operator? : Token → Option Operator
  | plus => some .plus
  | minus => some .minus
  | multiply => some .multiply
  | divide => some .divide
  | number _ | leftParen | rightParen => none

def text : Token → String
  | number x => Number.text x
  | plus => "+"
  | minus => "-"
  | multiply => "*"
  | divide => "/"
  | leftParen => "("
  | rightParen => ")"

def ofOperator : Operator → Token
  | .plus => plus
  | .minus => minus
  | .multiply => multiply
  | .divide => divide

theorem operator?_eq_some_iff {t : Token} {op : Operator} : t.operator? = some op ↔ t = ofOperator op := by
  cases t <;> cases op <;> simp [operator?, ofOperator]

end Token

end Calculator
