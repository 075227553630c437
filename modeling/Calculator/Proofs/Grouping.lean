import Calculator.Proofs.Calculation
import Calculator.Proofs.Token.Joining
/-!
# Groups are calculated by themselves

An expression put into parentheses is one operand, whatever it holds, so the calculation of a text made of such operands is
made of the calculations of the expressions: a group has the outcome of its content, a negated group the negated value, and
an operation on two groups has the outcome of the operation on their values. Only the nesting grows, by one.

Main statement: `calculate_groups`.
-/

namespace Calculator

variable {text text' : String} {tokens tokens' : List Token} {tree tree' : Expr}

/-! ## Texts made of groups -/

/-- The text in parentheses. -/
def grouped (text : String) : String := "(" ++ text ++ ")"

theorem tokenize_grouped (h : tokenize text = .ok tokens) :
    tokenize (grouped text) = .ok (.leftParen :: tokens ++ [.rightParen]) := by
  have hclose : tokenize (text ++ ')'.toString ++ "") = .ok (tokens ++ [.rightParen]) := by
    rw [tokenize_append_symbol rfl, h]
    rfl
  rw [String.append_empty] at hclose
  have hopen : tokenize ('('.toString ++ (text ++ ')'.toString)) = .ok (.leftParen :: (tokens ++ [.rightParen])) := by
    rw [tokenize_symbol_append rfl, hclose]
    rfl
  rw [← String.append_assoc] at hopen
  exact hopen

theorem tokenize_negated (h : tokenize text = .ok tokens) :
    tokenize ("-" ++ grouped text) = .ok (.minus :: .leftParen :: tokens ++ [.rightParen]) := by
  have hminus : tokenize ('-'.toString ++ grouped text) = (tokenize (grouped text)).map (.minus :: ·) :=
    tokenize_symbol_append rfl _
  rw [tokenize_grouped h] at hminus
  exact hminus

theorem ofSymbol?_symbol (op : Operator) : Token.ofSymbol? op.symbol = some (.ofOperator op) := by
  cases op <;> rfl

theorem tokenize_operation (h : tokenize text = .ok tokens) (h' : tokenize text' = .ok tokens') (op : Operator) :
    tokenize (text ++ op.text ++ text') = .ok (tokens ++ .ofOperator op :: tokens') := by
  rw [Operator.text, tokenize_append_symbol (ofSymbol?_symbol op), h, h']
  rfl

/-! ## Their trees -/

theorem parse_grouped (h : parse text = .ok (tokens, tree)) :
    parse (grouped text) = if tree.depth + 1 ≤ maxDepth then .ok (.leftParen :: tokens ++ [.rightParen], .group tree)
      else .error (.parse .nestedTooDeeply) := by
  obtain ⟨htokens, hderives, -⟩ := derives_of_parse h
  exact parse_eq_of_derives (tokenize_grouped htokens) (.ofProduct (.ofOperand (.group hderives)))

theorem parse_negated (h : parse text = .ok (tokens, tree)) :
    parse ("-" ++ grouped text) =
      if tree.depth + 1 ≤ maxDepth then .ok (.minus :: .leftParen :: tokens ++ [.rightParen], .negated tree)
      else .error (.parse .nestedTooDeeply) := by
  obtain ⟨htokens, hderives, -⟩ := derives_of_parse h
  exact parse_eq_of_derives (tokenize_negated htokens) (.ofProduct (.ofOperand (.minusGroup hderives)))

theorem parse_operation (h : parse text = .ok (tokens, tree)) (h' : parse text' = .ok (tokens', tree')) (op : Operator) :
    parse (grouped text ++ op.text ++ grouped text') =
      if max (tree.depth + 1) (tree'.depth + 1) ≤ maxDepth then
        .ok ((.leftParen :: tokens ++ [.rightParen]) ++ .ofOperator op :: (.leftParen :: tokens' ++ [.rightParen]),
          .binary (.group tree) op (.group tree'))
      else .error (.parse .nestedTooDeeply) := by
  obtain ⟨htokens, hderives, -⟩ := derives_of_parse h
  obtain ⟨htokens', hderives', -⟩ := derives_of_parse h'
  exact parse_eq_of_derives (tokenize_operation (tokenize_grouped htokens) (tokenize_grouped htokens') op)
    ((Derives.group hderives).binary op (.group hderives'))

/-! ## Expressions -/

/-- The text is an expression: if it has no value, then for its evaluation alone. -/
def IsExpression (text : String) : Prop := ∀ e, calculate text = .error e → ∃ err, e = .evaluation err

/-- How many groups of an expression stand inside one another. -/
def nesting (text : String) : Nat :=
  match parse text with
  | .ok (_, tree) => tree.depth
  | .error _ => 0

/-- The steps of a detailed calculation. -/
def detailedSteps (text : String) : List Step := (calculateTraced text (.empty true)).2.steps.toList

theorem calculate_of_parse_error {e : CalcError} (h : parse text = .error e) : calculate text = .error e := by
  unfold calculate calculateTraced runCalculation
  rw [h]
  rfl

theorem isExpression_of_ok {x : Float} (h : calculate text = .ok x) : IsExpression text := by
  intro e he
  rw [h] at he
  cases he

theorem IsExpression.exists_parse (h : IsExpression text) : ∃ tokens tree, parse text = .ok (tokens, tree) := by
  rcases runCalculation_cases text (.empty false) with ⟨e, hne, hrun⟩ | ⟨tokens, tree, -, hparse, -⟩
  · have hcalculate : calculate text = .error e := by
      unfold calculate calculateTraced
      rw [hrun]
      rfl
    obtain ⟨err, rfl⟩ := h e hcalculate
    exact absurd rfl (hne err)
  · exact ⟨tokens, tree, hparse⟩

theorem nesting_of_parse (h : parse text = .ok (tokens, tree)) : nesting text = tree.depth := by
  rw [nesting, h]

theorem calculate_of_parse (h : parse text = .ok (tokens, tree)) :
    calculate text = tree.value.mapError .evaluation := by
  obtain ⟨steps, hmeaning, -⟩ := meaning_spec tree
  rw [calculate, calculateTraced_of_parse h, hmeaning]

theorem detailedSteps_of_parse (h : parse text = .ok (tokens, tree)) : detailedSteps text = tree.meaning.2 := by
  rw [detailedSteps, calculateTraced_of_parse h, Trace.toList_steps_addSteps]
  rfl

/-! ## What is calculated of them -/

section Outcomes

variable {α β ε ε' : Type} (f : ε → ε')

theorem mapError_bind (x : Except ε α) (g : α → Except ε β) :
    (x >>= g).mapError f = x.mapError f >>= fun a => (g a).mapError f := by
  cases x <;> rfl

theorem mapError_eq_ok_iff {x : Except ε α} {a : α} : x.mapError f = .ok a ↔ x = .ok a := by
  cases x <;> simp [Except.mapError]

theorem map_eq_error_iff {x : Except ε α} {g : α → β} {e : ε} : x.map g = .error e ↔ x = .error e := by
  cases x <;> simp [Except.map]

end Outcomes

/-- The steps of an operation that has a result are those of its operands, and then its own. -/
theorem steps_meaning_binary {l r : Expr} {op : Operator} {z : Float} (h : (Expr.binary l op r).value = .ok z) :
    ∃ x y, l.value = .ok x ∧ r.value = .ok y ∧
      (Expr.binary l op r).meaning.2 = l.meaning.2 ++ r.meaning.2 ++ [⟨operationText x op y, z⟩] := by
  obtain ⟨steps, hleft, -⟩ := meaning_spec l
  obtain ⟨more, hright, -⟩ := meaning_spec r
  rw [Expr.value] at h
  rw [Expr.meaning, hleft, hright]
  cases hx : l.value with
  | error e =>
    rw [hx] at h
    cases h
  | ok x =>
    cases hy : r.value with
    | error e =>
      rw [hx, hy] at h
      cases h
    | ok y =>
      rw [hx, hy] at h
      have happly : op.apply x y = .ok z := h
      refine ⟨x, y, rfl, rfl, ?_⟩
      simp only [happly]

/-- The steps of a negation are those of its operand, and then its own. -/
theorem steps_meaning_negated {e : Expr} {z : Float} (h : (Expr.negated e).value = .ok z) :
    ∃ x, e.value = .ok x ∧ z = -x ∧ (Expr.negated e).meaning.2 = e.meaning.2 ++ [⟨negationText x, z⟩] := by
  obtain ⟨steps, hmeaning, -⟩ := meaning_spec e
  rw [Expr.value] at h
  rw [Expr.meaning, hmeaning]
  cases hx : e.value with
  | error err =>
    rw [hx] at h
    cases h
  | ok x =>
    rw [hx] at h
    obtain rfl := Except.ok.inj h
    exact ⟨x, rfl, rfl, rfl⟩

/-- A group has the outcome of its content, and a negated group the negated value, if there is a level left for it. -/
theorem calculate_grouped (h : parse text = .ok (tokens, tree)) (hdepth : tree.depth + 1 ≤ maxDepth) :
    calculate (grouped text) = calculate text ∧ calculate ("-" ++ grouped text) = (calculate text).map (- ·) := by
  have hgroup := parse_grouped h
  have hnegated := parse_negated h
  rw [if_pos hdepth] at hgroup hnegated
  rw [calculate_of_parse h, calculate_of_parse hgroup, calculate_of_parse hnegated]
  refine ⟨rfl, ?_⟩
  rw [Expr.value, mapError_bind]
  cases tree.value <;> rfl

/-- An operation on groups has the outcome of the operation on their values, the left one first. -/
theorem calculate_operation_grouped (h : parse text = .ok (tokens, tree)) (h' : parse text' = .ok (tokens', tree'))
    (op : Operator) (hdepth : max (tree.depth + 1) (tree'.depth + 1) ≤ maxDepth) :
    (calculate (grouped text ++ op.text ++ grouped text') = do
      let x ← calculate text
      let y ← calculate text'
      (op.apply x y).mapError .evaluation) ∧
    ∀ z, calculate (grouped text ++ op.text ++ grouped text') = .ok z →
      ∃ x y, calculate text = .ok x ∧ calculate text' = .ok y ∧
        detailedSteps (grouped text ++ op.text ++ grouped text') =
          detailedSteps text ++ detailedSteps text' ++ [⟨operationText x op y, z⟩] := by
  have hparse := parse_operation h h' op
  rw [if_pos hdepth] at hparse
  rw [calculate_of_parse h, calculate_of_parse h', calculate_of_parse hparse, detailedSteps_of_parse h,
    detailedSteps_of_parse h', detailedSteps_of_parse hparse]
  refine ⟨?_, ?_⟩
  · rw [Expr.value, mapError_bind]
    simp only [mapError_bind]
    rfl
  · intro z hz
    obtain ⟨x, y, hx, hy, hsteps⟩ := steps_meaning_binary ((mapError_eq_ok_iff _).1 hz)
    exact ⟨x, y, (mapError_eq_ok_iff _).2 hx, (mapError_eq_ok_iff _).2 hy, hsteps⟩

theorem calculate_grouped_too_deep (h : parse text = .ok (tokens, tree)) (hdepth : tree.depth = maxDepth) :
    calculate (grouped text) = .error (.parse .nestedTooDeeply) ∧
      calculate ("-" ++ grouped text) = .error (.parse .nestedTooDeeply) := by
  have hgroup := parse_grouped h
  have hnegated := parse_negated h
  rw [if_neg (by omega)] at hgroup hnegated
  exact ⟨calculate_of_parse_error hgroup, calculate_of_parse_error hnegated⟩

theorem calculate_operation_too_deep (h : parse text = .ok (tokens, tree)) (h' : parse text' = .ok (tokens', tree'))
    (op : Operator) (hdepth : tree.depth = maxDepth ∨ tree'.depth = maxDepth) :
    calculate (grouped text ++ op.text ++ grouped text') = .error (.parse .nestedTooDeeply) := by
  have hparse := parse_operation h h' op
  rw [if_neg (by omega)] at hparse
  exact calculate_of_parse_error hparse

/-! ## The main statement -/

/-- Groups are calculated by themselves. Of two expressions that leave a level for one more group, each has the same value or
error in parentheses, a unary minus before them negates its value, and an operation on both in parentheses has the first
one's error, else the second one's, else the outcome of the operation on their values, in which case the steps are those of
the first, those of the second and one more. An expression that leaves no level is nested too deeply in parentheses. -/
theorem calculate_groups {s₁ s₂ : String} (h₁ : IsExpression s₁) (h₂ : IsExpression s₂) (op : Operator) :
    (nesting s₁ ≤ 255 →
      calculate (grouped s₁) = calculate s₁ ∧ calculate ("-" ++ grouped s₁) = (calculate s₁).map (- ·)) ∧
    (nesting s₁ ≤ 255 → nesting s₂ ≤ 255 →
      (calculate (grouped s₁ ++ op.text ++ grouped s₂) = do
        let x ← calculate s₁
        let y ← calculate s₂
        (op.apply x y).mapError .evaluation) ∧
      ∀ z, calculate (grouped s₁ ++ op.text ++ grouped s₂) = .ok z →
        ∃ x y, calculate s₁ = .ok x ∧ calculate s₂ = .ok y ∧
          detailedSteps (grouped s₁ ++ op.text ++ grouped s₂) =
            detailedSteps s₁ ++ detailedSteps s₂ ++ [⟨operationText x op y, z⟩]) ∧
    (nesting s₁ = 256 → calculate (grouped s₁) = .error (.parse .nestedTooDeeply) ∧
      calculate ("-" ++ grouped s₁) = .error (.parse .nestedTooDeeply)) ∧
    (nesting s₁ = 256 ∨ nesting s₂ = 256 →
      calculate (grouped s₁ ++ op.text ++ grouped s₂) = .error (.parse .nestedTooDeeply)) := by
  obtain ⟨tokens₁, tree₁, hparse₁⟩ := h₁.exists_parse
  obtain ⟨tokens₂, tree₂, hparse₂⟩ := h₂.exists_parse
  rw [nesting_of_parse hparse₁, nesting_of_parse hparse₂]
  refine ⟨?_, ?_, ?_, ?_⟩
  · intro hdepth
    exact calculate_grouped hparse₁ (Nat.succ_le_succ hdepth)
  · intro hdepth₁ hdepth₂
    exact calculate_operation_grouped hparse₁ hparse₂ op
      (Nat.max_le.2 ⟨Nat.succ_le_succ hdepth₁, Nat.succ_le_succ hdepth₂⟩)
  · exact calculate_grouped_too_deep hparse₁
  · exact calculate_operation_too_deep hparse₁ hparse₂ op

/-- The difference of `6 - 4` and `-(1 / 2)`. -/
theorem calculate_difference_of_groups :
    (IsExpression "6 - 4" ∧ IsExpression "-(1 / 2)") ∧ nesting "6 - 4" = 0 ∧ nesting "-(1 / 2)" = 1 ∧
      calculate (grouped "6 - 4" ++ Operator.minus.text ++ grouped "-(1 / 2)") = .ok 2.5 := by
  have hleft : calculate "6 - 4" = .ok 2 := by decide +kernel
  have hright : calculate "-(1 / 2)" = .ok (-0.5) := by decide +kernel
  have hleft' : nesting "6 - 4" = 0 := by decide +kernel
  have hright' : nesting "-(1 / 2)" = 1 := by decide +kernel
  have happly : Operator.apply .minus 2 (-0.5) = .ok 2.5 := by decide +kernel
  have h := calculate_groups (isExpression_of_ok hleft) (isExpression_of_ok hright) .minus
  refine ⟨⟨isExpression_of_ok hleft, isExpression_of_ok hright⟩, hleft', hright', ?_⟩
  rw [(h.2.1 (by omega) (by omega)).1, hleft, hright]
  simp only [bind, Except.bind, happly, Except.mapError]

end Calculator
