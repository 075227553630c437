import Calculator.Expr.Partial
import Calculator.Token.Group
/-!
# From tokens to a tree

One step reads an operand and the operator after it. An operand is a number, a group, or either
of them after a unary minus; a group's tokens are cut out and built on their own, one level further down.
A build ends with a tree when the tokens end after an operand, and with an error at the first token
that fits nowhere.
-/

namespace Calculator

/-- How many groups may stand inside one another. -/
def maxDepth : Nat := 256

/-- Why tokens are no expression. -/
inductive ParseError where
  | unexpectedEnd
  | unmatchedParenthesis
  | emptyParenthesis
  | invalidAfterUnaryMinus (token : Token)
  | unexpectedToken (token : Token)
  | nestedTooDeeply
  deriving DecidableEq

def ParseError.message : ParseError → String
  | unexpectedEnd => "unexpected end of input"
  | unmatchedParenthesis => "unmatched parenthesis"
  | emptyParenthesis => "empty parenthesis"
  | invalidAfterUnaryMinus t => "invalid token after unary minus: '" ++ t.text ++ "'"
  | unexpectedToken t => "unexpected token '" ++ t.text ++ "'"
  | nestedTooDeeply => "expression nested too deeply"

/-- How far a build has come. -/
inductive BuildState where
  /-- The tree read so far, if anything was read, and the tokens to come. -/
  | inProgress (root : Option PartialTree) (tokens : List Token)
  | done (tree : Expr)
  | failed (error : ParseError)
  deriving DecidableEq

/-- Builds the tree of the tokens inside a group. -/
abbrev GroupBuilder := List Token → Except ParseError Expr

/-- The tree of a group whose opening parenthesis was just read, and the tokens after the group. -/
def readGroup (build : GroupBuilder) (tokens : List Token) : Except ParseError (Expr × List Token) :=
  match matchingClose? tokens with
  | none => .error .unmatchedParenthesis
  | some 0 => .error .emptyParenthesis
  | some close =>
    match build (tokens.take close) with
    | .ok inner => .ok (inner, tokens.drop (close + 1))
    | .error e => .error e

/-- Takes an operand just read, and the operator after it unless the tokens end here. -/
def takeOperand (root : Option PartialTree) (operand : Expr) : List Token → Except ParseError BuildState
  | [] =>
    match root with
    | none => .ok (.done operand)
    | some p => .ok (.done (p.complete operand))
  | t :: rest =>
    match t.operator?, root with
    | none, _ => .error (.unexpectedToken t)
    | some op, none => .ok (.inProgress (some (.start operand op)) rest)
    | some op, some p => .ok (.inProgress (some (p.merge operand op)) rest)

/-- Reads one operand and what follows it. Nothing at all is the tree of a lone slot. -/
def readOperand (build : GroupBuilder) (root : Option PartialTree) : List Token → Except ParseError BuildState
  | [] =>
    match root with
    | none => .ok (.done .slot)
    | some _ => .error .unexpectedEnd
  | .minus :: .number x :: rest => takeOperand root (.number (-x)) rest
  | .minus :: .leftParen :: rest =>
    match readGroup build rest with
    | .ok (inner, rest) => takeOperand root (.negated inner) rest
    | .error e => .error e
  | .minus :: t :: _ => .error (.invalidAfterUnaryMinus t)
  | [.minus] => .error .unexpectedEnd
  | .number x :: rest => takeOperand root (.number x) rest
  | .leftParen :: rest =>
    match readGroup build rest with
    | .ok (inner, rest) => takeOperand root (.group inner) rest
    | .error e => .error e
  | t :: _ => .error (.unexpectedToken t)

namespace BuildState

def start (tokens : List Token) : BuildState := inProgress none tokens

def isTerminal : BuildState → Bool
  | inProgress .. => false
  | done _ | failed _ => true

/-- One step, with the groups built by `build`; a build that has ended stays as it is. -/
def advance (build : GroupBuilder) : BuildState → BuildState
  | inProgress root tokens =>
    match readOperand build root tokens with
    | .ok s => s
    | .error e => failed e
  | done tree => done tree
  | failed e => failed e

/-- At most the given number of steps. -/
def run (build : GroupBuilder) : Nat → BuildState → BuildState
  | 0, s => s
  | n + 1, s => if s.isTerminal then s else run build n (s.advance build)

/-- The tree or the error a build has ended with; one that has not ended lacks tokens. -/
def result : BuildState → Except ParseError Expr
  | done tree => .ok tree
  | failed e => .error e
  | inProgress .. => .error .unexpectedEnd

theorem advance_of_isTerminal (build : GroupBuilder) {s : BuildState} (h : s.isTerminal = true) :
    s.advance build = s := by
  cases s with
  | inProgress root tokens => simp [isTerminal] at h
  | done tree => rfl
  | failed e => rfl

theorem run_of_isTerminal (build : GroupBuilder) (n : Nat) {s : BuildState} (h : s.isTerminal = true) :
    s.run build n = s := by
  cases n with
  | zero => rfl
  | succ n => rw [run, if_pos h]

/-- Stopping early changes nothing: a run is so many steps one after another. -/
theorem run_succ (build : GroupBuilder) (n : Nat) (s : BuildState) :
    s.run build (n + 1) = (s.advance build).run build n := by
  rw [run]
  split
  · next h => rw [advance_of_isTerminal build h, run_of_isTerminal build n h]
  · rfl

end BuildState

/-- The tree of the tokens, when at most `levels` levels are left, this one included. Every step but the
last takes two tokens or more, so the steps given are enough. -/
def buildWithin : (levels : Nat) → List Token → Except ParseError Expr
  | 0, _ => .error .nestedTooDeeply
  | levels + 1, tokens => ((BuildState.start tokens).run (buildWithin levels) (tokens.length + 1)).result

def build (tokens : List Token) : Except ParseError Expr := buildWithin (maxDepth + 1) tokens

/-- One step of a build outside all groups. -/
def BuildState.step : BuildState → BuildState := BuildState.advance (buildWithin maxDepth)

end Calculator
