import Calculator.Token
/-!
# The echo of an expression

Tokens are written with one space on either side of a binary operator and none inside
parentheses or after a unary minus, as in `2 * -(3 + 4)`. Where a space stands depends only on
what came before, of which three cases need telling apart.
-/

namespace Calculator

/-- What stands before a token of the echo. -/
inductive Place where
  /-- The start, an opening parenthesis or a unary minus: the next token is attached. -/
  | attached
  /-- A binary operator: an operand is due, and a minus would be unary. -/
  | operand
  /-- A number or a closing parenthesis: a minus would be binary. -/
  | operator
  deriving Repr, DecidableEq

namespace Place

def after (p : Place) : Token → Place
  | .number _ | .rightParen => operator
  | .leftParen => attached
  | .minus => if p = operator then operand else attached
  | .plus | .multiply | .divide => operand

/-- What is written between a place and the token there. -/
def gap (p : Place) (t : Token) : String := if p = attached ∨ t = .rightParen then "" else " "

end Place

/-- Writes tokens behind `written`. -/
def echoOnto (written : String) (p : Place) : List Token → String
  | [] => written
  | t :: ts => echoOnto (written ++ p.gap t ++ t.text) (p.after t) ts

def echo (tokens : List Token) : String := echoOnto "" .attached tokens

theorem echoOnto_eq (written : String) (p : Place) (ts : List Token) :
    echoOnto written p ts = written ++ echoOnto "" p ts := by
  induction ts generalizing written p with
  | nil => simp [echoOnto]
  | cons t ts ih =>
    rw [echoOnto, ih, echoOnto, ih ("" ++ _ ++ _)]
    simp [String.append_assoc]

theorem echoOnto_append (written : String) (p : Place) (ts us : List Token) :
    echoOnto written p (ts ++ us) = echoOnto (echoOnto written p ts) (ts.foldl Place.after p) us := by
  induction ts generalizing written p with
  | nil => rfl
  | cons t ts ih => exact ih _ _

end Calculator
