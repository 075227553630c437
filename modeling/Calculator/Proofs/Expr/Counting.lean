import Calculator.Expr.Grammar
import Calculator.Proofs.Eval.PostOrder
import Calculator.Proofs.Token.Lexing
/-!
# Operations counted from the tokens

Each operator sign of an expression is one operation of its tree, unless it is the sign of a number: a minus right before a
number, in a place where an operand is due. An operand is due at the start, behind an opening parenthesis, and behind an
operator sign. So the operations can be counted without building the tree (`Derives.length_operations`).
-/

namespace Calculator

/-- Whether an operand is due behind the token. -/
def Token.leavesOperandDue : Token → Bool
  | number _ | rightParen => false
  | leftParen | plus | minus | multiply | divide => true

def operatorCount (ts : List Token) : Nat := ts.countP fun t => t.operator?.isSome

/-- How many of the tokens are signs of numbers, if an operand is due at the first, or if none is. -/
def signCount (due : Bool) : List Token → Nat
  | [] => 0
  | t :: ts =>
    (if due ∧ t = .minus ∧ ts.head?.any Token.isNumber then 1 else 0) + signCount t.leavesOperandDue ts

/-! ## One token -/

section Tokens

variable {t : Token} {ts us : List Token} {due : Bool}

theorem operatorCount_append : operatorCount (ts ++ us) = operatorCount ts + operatorCount us :=
  List.countP_append

theorem operatorCount_operator (op : Operator) : operatorCount (.ofOperator op :: ts) = operatorCount ts + 1 := by
  rw [operatorCount, List.countP_cons_of_pos (by cases op <;> rfl), operatorCount]

theorem operatorCount_cons (h : t.operator? = none) : operatorCount (t :: ts) = operatorCount ts := by
  rw [operatorCount, List.countP_cons_of_neg (by simp [h]), operatorCount]

theorem signCount_cons (h : t ≠ .minus) : signCount due (t :: ts) = signCount t.leavesOperandDue ts := by
  simp [signCount, h]

/-- Where no operand is due, a minus subtracts. -/
theorem signCount_operator (op : Operator) : signCount false (.ofOperator op :: ts) = signCount true ts := by
  cases op <;> simp [signCount, Token.ofOperator, Token.leavesOperandDue]

theorem signCount_minus_number (x : Float) : signCount true (.minus :: .number x :: ts) = 1 + signCount false ts := by
  simp [signCount, Token.isNumber, Token.leavesOperandDue]

theorem signCount_minus_group : signCount due (.minus :: .leftParen :: ts) = signCount due (.leftParen :: ts) := by
  simp [signCount, Token.isNumber, Token.leavesOperandDue]

end Tokens

/-! ## Expressions -/

/-- Where an operand is due, the tokens stand for this many operations, and no operand is due behind them. -/
def CountsTo (ts : List Token) (n : Nat) : Prop :=
  ∀ rest, n + signCount true (ts ++ rest) = operatorCount ts + signCount false rest

namespace CountsTo

variable {ts us : List Token} {m n : Nat}

theorem number (x : Float) : CountsTo [.number x] 0 := by
  intro rest
  rw [List.singleton_append, signCount_cons (by simp)]
  rfl

theorem minusNumber (x : Float) : CountsTo [.minus, .number x] 0 := by
  intro rest
  rw [List.cons_append, List.singleton_append, signCount_minus_number, Nat.zero_add]
  rfl

/-- Parentheses count for nothing. -/
theorem group (h : CountsTo ts n) : CountsTo (.leftParen :: ts ++ [.rightParen]) n := by
  intro rest
  have hinner := h (.rightParen :: rest)
  rw [signCount_cons (by simp)] at hinner
  rw [List.append_assoc, List.cons_append, List.singleton_append, signCount_cons (by simp), operatorCount_append,
    operatorCount_cons rfl]
  exact hinner

/-- The minus before a group is an operation. -/
theorem minusGroup (h : CountsTo ts n) : CountsTo (.minus :: .leftParen :: ts ++ [.rightParen]) (n + 1) := by
  intro rest
  have hgroup := h.group rest
  have hminus : operatorCount (.minus :: .leftParen :: ts ++ [.rightParen]) =
      operatorCount (.leftParen :: ts ++ [.rightParen]) + 1 := operatorCount_operator .minus
  simp only [List.cons_append] at hgroup hminus
  simp only [List.cons_append, signCount_minus_group, hminus]
  omega

/-- The sign between two operands is an operation. -/
theorem binary (hl : CountsTo ts m) (op : Operator) (hr : CountsTo us n) :
    CountsTo (ts ++ .ofOperator op :: us) (m + n + 1) := by
  intro rest
  have hleft := hl (.ofOperator op :: (us ++ rest))
  have hright := hr rest
  rw [signCount_operator] at hleft
  rw [operatorCount_append, operatorCount_operator, List.append_assoc, List.cons_append]
  omega

end CountsTo

theorem Derives.countsTo {r : Rank} {ts : List Token} {e : Expr} (h : Derives r ts e) :
    CountsTo ts e.operations.length := by
  induction h with
  | number x => exact .number x
  | minusNumber x => exact .minusNumber x
  | group _ ih => exact ih.group
  | minusGroup _ ih =>
    rw [Expr.operations, List.length_append]
    exact ih.minusGroup
  | ofOperand _ ih | ofProduct _ ih => exact ih
  | product op _ _ _ ihl ihr | sum op _ _ _ ihl ihr =>
    rw [Expr.operations, List.length_append, List.length_append]
    exact ihl.binary op ihr

/-- The operations of an expression are its operator signs less the signs of its numbers. -/
theorem Derives.length_operations {r : Rank} {ts : List Token} {e : Expr} (h : Derives r ts e) :
    e.operations.length + signCount true ts = operatorCount ts := by
  have hcount := h.countsTo []
  rwa [List.append_nil] at hcount

end Calculator
