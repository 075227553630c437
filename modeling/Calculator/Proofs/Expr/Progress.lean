import Calculator.Expr.Tokens
import Calculator.Proofs.Expr.Parsing
import Calculator.Proofs.Number.Pattern
/-!
# No token is lost on the way

A build moves tokens from its input into its tree. `Sound`, which every step keeps, says that the tokens taken are derived
from the grammar with the tree at each place of the partial tree, and a derived tree read from left to right
gives back its tokens. So at any moment the tree so far and the tokens to come are the tokens of the start.

Main statement: `keeps_of_reachable`.
-/

namespace Calculator

open Binary64 Number

variable {ts : List Token} {e : Expr}

/-! ## The tokens of derived trees -/

/-- Numbers as they are written: not without a value, and without a sign. -/
def Written (ts : List Token) : Prop := ∀ x, .number x ∈ ts → x.isNaN = false ∧ isNegative x = false

theorem written_append {us : List Token} : Written (ts ++ us) ↔ Written ts ∧ Written us := by
  constructor
  · intro h
    exact ⟨fun x hx => h x (List.mem_append_left us hx), fun x hx => h x (List.mem_append_right ts hx)⟩
  · rintro ⟨hts, hus⟩ x hx
    rcases List.mem_append.1 hx with hx | hx
    · exact hts x hx
    · exact hus x hx

theorem Written.tail {t : Token} (h : Written (t :: ts)) : Written ts := fun x hx => h x (List.mem_cons_of_mem t hx)

theorem signedTokens_of_pos {x : Float} (h : isNegative x = false) : signedTokens x = [.number x] := by
  rw [signedTokens, h, if_neg (by decide)]

theorem signedTokens_neg {x : Float} (hnan : x.isNaN = false) (h : isNegative x = false) :
    signedTokens (-x) = [.minus, .number x] := by
  have hle := magnitude_le_of_isNaN hnan
  rw [signedTokens, isNegative_neg hle, h, if_pos (by rfl), neg_neg_eq hle]

/-- A derived tree, read from left to right, is the tokens it was derived from. -/
theorem Derives.tokens_eq {r : Rank} (h : Derives r ts e) (hts : Written ts) : e.tokens = ts := by
  induction h with
  | number x => exact signedTokens_of_pos (hts x (by simp)).2
  | minusNumber x =>
    obtain ⟨hnan, hsign⟩ := hts x (by simp)
    exact signedTokens_neg hnan hsign
  | group _ ih => rw [Expr.tokens, ih (written_append.1 hts).1.tail]
  | minusGroup _ ih => rw [Expr.tokens, ih (written_append.1 hts).1.tail.tail]
  | ofOperand _ ih | ofProduct _ ih => exact ih hts
  | product op _ _ _ ihl ihr | sum op _ _ _ ihl ihr =>
    obtain ⟨hl, hr⟩ := written_append.1 hts
    rw [Expr.tokens, ihl hl, ihr hr.tail]

/-! ## Slots -/

namespace Expr

/-- How many operands a tree still lacks. -/
def slots : Expr → Nat
  | number _ => 0
  | group inner | negated inner => inner.slots
  | binary left _ right => left.slots + right.slots
  | slot => 1

/-- A slot is the right operand of the tree, or of its right operand. -/
inductive EndsInSlot : Expr → Prop
  | right {l : Expr} {op : Operator} : EndsInSlot (.binary l op .slot)
  | rightOfRight {l m : Expr} {op o : Operator} : EndsInSlot (.binary l op (.binary m o .slot))

end Expr

theorem Derives.slots_eq {r : Rank} (h : Derives r ts e) : e.slots = 0 := by
  induction h with
  | number x | minusNumber x => rfl
  | group _ ih | minusGroup _ ih | ofOperand _ ih | ofProduct _ ih => exact ih
  | product op _ _ _ ihl ihr | sum op _ _ _ ihl ihr => rw [Expr.slots, ihl, ihr]

namespace PartialTree

variable {p : PartialTree} {us : List Token}

theorem toExpr_closed (l : Expr) (op : Operator) : toExpr ⟨l, op, none⟩ = .binary l op .slot := rfl

theorem toExpr_opened (l m : Expr) (op o : Operator) :
    toExpr ⟨l, op, some (m, o)⟩ = .binary l op (.binary m o .slot) := rfl

/-- The tree with its slot left open, read from left to right, is the tokens taken. -/
theorem Reads.tokens_eq (h : p.Reads us) (hus : Written us) : p.toExpr.tokens = us := by
  cases h with
  | loose _ left | tight _ left =>
    obtain ⟨hl, -⟩ := written_append.1 hus
    rw [toExpr_closed, Expr.tokens, left.tokens_eq hl, Expr.tokens]
  | opened _ _ left middle =>
    obtain ⟨hboth, -⟩ := written_append.1 hus
    obtain ⟨hl, hm⟩ := written_append.1 hboth
    rw [toExpr_opened, Expr.tokens, Expr.tokens, left.tokens_eq hl, middle.tokens_eq hm.tail, Expr.tokens, List.append_assoc]
    rfl

theorem Reads.slots_eq (h : p.Reads us) : p.toExpr.slots = 1 := by
  cases h with
  | loose _ left | tight _ left => rw [toExpr_closed, Expr.slots, left.slots_eq, Expr.slots]
  | opened _ _ left middle =>
    rw [toExpr_opened, Expr.slots, Expr.slots, left.slots_eq, middle.slots_eq, Expr.slots]

theorem Reads.endsInSlot (h : p.Reads us) : p.toExpr.EndsInSlot := by
  cases h with
  | loose _ _ | tight _ _ => exact .right
  | opened _ _ _ _ => exact .rightOfRight

end PartialTree

/-! ## States of a build -/

/-- The states that steps lead to from the tokens. -/
inductive Reachable (ts : List Token) : BuildState → Prop
  | start : Reachable ts (.start ts)
  | step {s : BuildState} : Reachable ts s → Reachable ts s.step

theorem sound_of_reachable {s : BuildState} (h : Reachable ts s) : Sound ts s := by
  induction h with
  | start => exact .fresh
  | step _ ih => exact sound_advance (fun _ _ hne hbuilt => derives_of_buildWithin hne hbuilt) ih

/-- What a state keeps of the tokens: those of its tree and those to come are all of them, in order, and its tree lacks
the last operand only, or none when it is done. -/
def Keeps (ts : List Token) : BuildState → Prop
  | .inProgress none rest => rest = ts
  | .inProgress (some p) rest => rest <:+ ts ∧ p.toExpr.tokens ++ rest = ts ∧ p.toExpr.slots = 1 ∧ p.toExpr.EndsInSlot
  | .done tree => tree.tokens = ts ∧ (ts ≠ [] → tree.slots = 0)
  | .failed _ => True

/-- No token is lost, doubled or moved at any moment of a build. -/
theorem keeps_of_reachable {s : BuildState} (hts : Written ts) (h : Reachable ts s) : Keeps ts s := by
  cases sound_of_reachable h with
  | fresh => rfl
  | going reads all =>
    subst all
    refine ⟨List.suffix_append _ _, ?_, reads.slots_eq, reads.endsInSlot⟩
    rw [reads.tokens_eq (written_append.1 hts).1]
  | nothing none =>
    subst none
    exact ⟨rfl, fun hne => absurd rfl hne⟩
  | done derived => exact ⟨derived.tokens_eq hts, fun _ => derived.slots_eq⟩
  | failed err => trivial

/-- After two steps on `-(1) + 2 * 3` a product has been opened below the sum. -/
theorem keeps_opened_product :
    Written [.minus, .leftParen, .number 1, .rightParen, .plus, .number 2, .multiply, .number 3] ∧
      Reachable [.minus, .leftParen, .number 1, .rightParen, .plus, .number 2, .multiply, .number 3]
        (.inProgress (some ⟨.negated (.number 1), .plus, some (.number 2, .multiply)⟩) [.number 3]) ∧
      Keeps [.minus, .leftParen, .number 1, .rightParen, .plus, .number 2, .multiply, .number 3]
        (.inProgress (some ⟨.negated (.number 1), .plus, some (.number 2, .multiply)⟩) [.number 3]) := by
  have hwritten : Written [.minus, .leftParen, .number 1, .rightParen, .plus, .number 2, .multiply, .number 3] := by
    intro x hx
    simp only [List.mem_cons, List.not_mem_nil, Token.number.injEq, reduceCtorEq, false_or, or_false] at hx
    rcases hx with rfl | rfl | rfl <;> decide
  have hreachable : Reachable [.minus, .leftParen, .number 1, .rightParen, .plus, .number 2, .multiply, .number 3]
      (.inProgress (some ⟨.negated (.number 1), .plus, some (.number 2, .multiply)⟩) [.number 3]) :=
    .step (.step .start)
  exact ⟨hwritten, hreachable, keeps_of_reachable hwritten hreachable⟩

end Calculator
