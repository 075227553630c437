import Calculator.Proofs.Expr.Bracketing
import Calculator.Proofs.Replay
/-!
# The text of a tree can be calculated

With parentheses in place of its braces the text of a tree is an expression again, in which every operation stands in a
group of its own. These groups fix the shape that precedence and grouping to the left gave to the tree, so the expression
has the same tree but for the groups, and groups change neither the value nor the steps.

Main statement: `calculate_text_of_tree`.
-/

namespace Calculator

open Number

/-! ## Trees with all their groups -/

namespace Expr

/-- The tree with a group around every binary operation. -/
def parenthesised : Expr → Expr
  | number x => number x
  | slot => slot
  | group inner => group inner.parenthesised
  | negated inner => negated inner.parenthesised
  | binary left op right => group (binary left.parenthesised op right.parenthesised)

/-- How many groups and operations stand inside one another at most. -/
def layers : Expr → Nat
  | number _ | slot => 0
  | group inner | negated inner => inner.layers + 1
  | binary left _ right => max left.layers right.layers + 1

theorem depth_parenthesised (e : Expr) : e.parenthesised.depth = e.layers := by
  induction e with
  | number x => rfl
  | slot => rfl
  | group inner ih | negated inner ih => rw [parenthesised, depth, layers, ih]
  | binary left op right ihl ihr => rw [parenthesised, depth, depth, layers, ihl, ihr]

/-- More groups change neither the value nor the steps. -/
theorem meaning_parenthesised (e : Expr) : e.parenthesised.meaning = e.meaning := by
  induction e with
  | number x => rfl
  | slot => rfl
  | group inner ih => exact ih
  | negated inner ih => rw [parenthesised, meaning, ih, meaning]
  | binary left op right ihl ihr => rw [parenthesised, meaning, meaning, ihl, ihr, meaning]

variable {e : Expr}

/-- With all its groups a finished tree is a single operand. -/
theorem Finished.derives_parenthesised (h : e.Finished) : Derives .operand e.parenthesised.tokens e.parenthesised := by
  induction e with
  | number x => exact derives_signedTokens h
  | slot => exact h.elim
  | group inner ih => exact .group (.ofProduct (.ofOperand (ih h)))
  | negated inner ih => exact .minusGroup (.ofProduct (.ofOperand (ih h)))
  | binary left op right ihl ihr => exact .group ((ihl h.1).binary op (ihr h.2))

theorem Finished.readable_parenthesised (h : e.Finished) : Readable e.parenthesised.tokens := by
  induction e with
  | number x => exact readable_signedTokens h
  | slot => exact h.elim
  | group inner ih => exact readable_nil.append rfl ((ih h).append rfl readable_nil)
  | negated inner ih => exact readable_nil.append rfl (readable_nil.append rfl ((ih h).append rfl readable_nil))
  | binary left op right ihl ihr =>
    exact readable_nil.append rfl (((ihl h.1).append (isNumber_ofOperator op) (ihr h.2)).append rfl readable_nil)

end Expr

/-! ## Parentheses in place of braces -/

def asParenthesis (c : Char) : Char := if c = '\x7b' then '(' else if c = '\x7d' then ')' else c

/-- The text with every brace replaced by a parenthesis. -/
def bracesToParentheses (text : String) : String := text.map asParenthesis

theorem map_asParenthesis_chars (x : Float) : (Number.chars x).map asParenthesis = Number.chars x := by
  have hfixed : ∀ c ∈ Number.chars x, asParenthesis c = id c := by
    intro c hc
    obtain ⟨-, hopen, hclose⟩ := ne_of_mem_chars hc
    rw [asParenthesis, if_neg hopen, if_neg hclose, id]
  rw [List.map_congr_left hfixed, List.map_id]

theorem toList_bracesToParentheses (e : Expr) :
    (bracesToParentheses e.text).toList = e.bracketed ['(', ' '] [' ', ')'] := by
  rw [bracesToParentheses, String.toList_map, e.toList_text]
  induction e with
  | number x => exact map_asParenthesis_chars x
  | slot => rfl
  | group inner ih | negated inner ih =>
    simp only [Expr.bracketed, List.map_cons, List.map_append, ih]
    rfl
  | binary left op right ihl ihr =>
    have hop : asParenthesis op.symbol = op.symbol := by cases op <;> rfl
    simp only [Expr.bracketed, List.map_cons, List.map_append, ihl, ihr, hop]
    rfl

/-- Parentheses around operations are written as those of groups are, apart from blanks. -/
theorem dropBlanks_bracketed {e : Expr} (h : e.Finished) :
    dropBlanks (e.bracketed ['(', ' '] [' ', ')']) = dropBlanks (joined e.parenthesised.tokens) := by
  have hopen : dropBlanks ['('] = dropBlanks (joined [.leftParen]) := rfl
  have hclose : dropBlanks [')'] = dropBlanks (joined [.rightParen]) := rfl
  induction e with
  | number x =>
    rw [Expr.bracketed, Expr.parenthesised, Expr.tokens, ← toList_text h, Number.text, String.toList_ofList]
  | slot => exact h.elim
  | group inner ih =>
    calc dropBlanks (['('] ++ (inner.bracketed ['(', ' '] [' ', ')'] ++ [')']))
        = dropBlanks (joined [.leftParen] ++ (joined inner.parenthesised.tokens ++ joined [.rightParen])) := by
          simp only [dropBlanks_append, ih h, hopen, hclose]
      _ = dropBlanks (joined (Expr.group inner).parenthesised.tokens) := by
          rw [← joined_append, ← joined_append]
          rfl
  | negated inner ih =>
    have hminus : dropBlanks ['-'] = dropBlanks (joined [.minus]) := rfl
    calc dropBlanks (['-'] ++ (['('] ++ (inner.bracketed ['(', ' '] [' ', ')'] ++ [')'])))
        = dropBlanks (joined [.minus] ++ (joined [.leftParen] ++
            (joined inner.parenthesised.tokens ++ joined [.rightParen]))) := by
          simp only [dropBlanks_append, ih h, hminus, hopen, hclose]
      _ = dropBlanks (joined (Expr.negated inner).parenthesised.tokens) := by
          rw [← joined_append, ← joined_append, ← joined_append]
          rfl
  | binary left op right ihl ihr =>
    have hopen' : dropBlanks ['(', ' '] = dropBlanks (joined [.leftParen]) := rfl
    have hclose' : dropBlanks [' ', ')'] = dropBlanks (joined [.rightParen]) := rfl
    have hop : dropBlanks [' ', op.symbol, ' '] = dropBlanks (joined [.ofOperator op]) := by cases op <;> rfl
    calc dropBlanks (['(', ' '] ++ (left.bracketed ['(', ' '] [' ', ')'] ++
            ([' ', op.symbol, ' '] ++ (right.bracketed ['(', ' '] [' ', ')'] ++ [' ', ')']))))
        = dropBlanks (joined [.leftParen] ++ (joined left.parenthesised.tokens ++
            (joined [.ofOperator op] ++ (joined right.parenthesised.tokens ++ joined [.rightParen])))) := by
          simp only [dropBlanks_append, ihl h.1, ihr h.2, hop, hopen', hclose']
      _ = dropBlanks (joined (Expr.binary left op right).parenthesised.tokens) := by
          rw [← joined_append, ← joined_append, ← joined_append, ← joined_append]
          simp [Expr.parenthesised, Expr.tokens]

/-- The text of a finished tree, with parentheses, is read as the tree with all its groups. -/
theorem tokenize_bracesToParentheses {e : Expr} (h : e.Finished) :
    tokenize (bracesToParentheses e.text) = .ok e.parenthesised.tokens :=
  tokenize_of_dropBlanks_eq h.readable_parenthesised (by rw [toList_bracesToParentheses, dropBlanks_bracketed h])

/-! ## The main statement -/

/-- The text of the tree of an expression, with parentheses in place of its braces, is calculated as the expression is, with
the same value or error and the same steps, unless its groups and operations are nested too deeply to be groups all. -/
theorem calculate_text_of_tree {text : String} {tokens : List Token} {tree : Expr} (htokens : tokenize text = .ok tokens)
    (hne : tokens ≠ []) (hbuild : build tokens = .ok tree) (hlayers : tree.layers ≤ 256) :
    calculate (bracesToParentheses tree.text) = calculate text ∧
      ∀ t, calculateTraced (bracesToParentheses tree.text) t = calculateTraced text t := by
  have hparse : parse text = .ok (tokens, tree) := parse_eq_ok_iff.2 ⟨htokens, hne, hbuild⟩
  have hfinished := finished_of_parse hparse
  have hdepth : tree.parenthesised.depth ≤ maxDepth := by rwa [tree.depth_parenthesised]
  have htraced (t : Trace) : calculateTraced (bracesToParentheses tree.text) t = calculateTraced text t := by
    rw [calculateTraced_of_derives (tokenize_bracesToParentheses hfinished)
      (.ofProduct (.ofOperand hfinished.derives_parenthesised)) hdepth, tree.meaning_parenthesised,
      calculateTraced_of_parse hparse]
  refine ⟨?_, htraced⟩
  rw [calculate, calculate, htraced]

/-- The tree of `1 - -2 * -(3 / 4)` is shown as `{ 1 - { -2 * -({ 3 / 4 }) } }`. -/
theorem calculate_text_of_negations :
    tokenize "1 - -2 * -(3 / 4)" = .ok [.number 1, .minus, .minus, .number 2, .multiply, .minus, .leftParen, .number 3,
        .divide, .number 4, .rightParen] ∧
      build [.number 1, .minus, .minus, .number 2, .multiply, .minus, .leftParen, .number 3, .divide, .number 4,
        .rightParen] = .ok (.binary (.number 1) .minus (.binary (.number (-2)) .multiply
          (.negated (.binary (.number 3) .divide (.number 4))))) ∧
      calculate (bracesToParentheses "\x7b 1 - \x7b -2 * -(\x7b 3 / 4 \x7d) \x7d \x7d") = calculate "1 - -2 * -(3 / 4)" := by
  have htokens : tokenize "1 - -2 * -(3 / 4)" = .ok [.number 1, .minus, .minus, .number 2, .multiply, .minus, .leftParen,
      .number 3, .divide, .number 4, .rightParen] := by decide +kernel
  have hbuild : build [.number 1, .minus, .minus, .number 2, .multiply, .minus, .leftParen, .number 3, .divide, .number 4,
      .rightParen] = .ok (.binary (.number 1) .minus (.binary (.number (-2)) .multiply
        (.negated (.binary (.number 3) .divide (.number 4))))) := rfl
  have htext : (Expr.binary (.number 1) .minus (.binary (.number (-2)) .multiply
      (.negated (.binary (.number 3) .divide (.number 4))))).text =
        "\x7b 1 - \x7b -2 * -(\x7b 3 / 4 \x7d) \x7d \x7d" := by
    rw [Expr.text_eq_shown]
    decide +kernel
  have h := (calculate_text_of_tree htokens (by simp) hbuild (by decide)).1
  rw [htext] at h
  exact ⟨htokens, hbuild, h⟩

end Calculator
