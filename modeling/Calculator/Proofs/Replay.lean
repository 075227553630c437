import Calculator.Expr.Tokens
import Calculator.Proofs.Calculation
import Calculator.Proofs.Token.Echoing
/-!
# Steps can be calculated again

A step shows its operation as text, with the numbers as they are printed. Read as an expression, that text is the operation
on the same numbers: a sign is read as a unary minus on a number, and the digits read back. So every step of a
calculation, the operation of an overflow and the result can be entered again, with the same outcome bit for bit.

Main statement: `runCalculation_replayable`.
-/

namespace Calculator

open Binary64 Number

variable {x y z : Float} {op : Operator}

/-! ## The tokens of printed operations -/

/-- A finite number is printed as its tokens are. -/
theorem toList_text (h : x.isFinite = true) : (Number.text x).toList = joined (signedTokens x) := by
  have hle := ((isFinite_iff x).1 h).le
  rw [Number.text, String.toList_ofList, chars_eq h, signedTokens]
  cases hsign : isNegative x with
  | false =>
    rw [if_neg (by decide), if_neg (by decide), joined_cons, joined_nil, toList_text_of_unsigned h hsign, List.append_nil]
  | true =>
    have hneg : isNegative (-x) = false := by rw [isNegative_neg hle, hsign]; rfl
    rw [if_pos rfl, if_pos rfl, joined_cons, joined_cons, joined_nil, toList_text_of_unsigned (isFinite_neg h) hneg,
      magnitude_neg hle, List.append_nil]
    rfl

theorem readable_signedTokens (h : x.isFinite = true) : Readable (signedTokens x) := by
  have hle := ((isFinite_iff x).1 h).le
  unfold signedTokens
  cases hsign : isNegative x with
  | false =>
    rw [if_neg (by decide)]
    exact readable_number h hsign
  | true =>
    have hneg : isNegative (-x) = false := by rw [isNegative_neg hle, hsign]; rfl
    rw [if_pos rfl]
    exact readable_nil.append rfl (readable_number (isFinite_neg h) hneg)

/-- The tokens of a number are an operand, the number itself. -/
theorem derives_signedTokens (h : x.isFinite = true) : Derives .operand (signedTokens x) (.number x) := by
  unfold signedTokens
  split
  · have hderives := Derives.minusNumber (-x)
    rwa [neg_neg_eq ((isFinite_iff x).1 h).le] at hderives
  · exact .number x

/-- A printed number is read as its tokens. -/
theorem tokenize_text (h : x.isFinite = true) : tokenize (Number.text x) = .ok (signedTokens x) :=
  tokenize_of_dropBlanks_eq (readable_signedTokens h) (by rw [toList_text h])

theorem isNumber_ofOperator (op : Operator) : (Token.ofOperator op).isNumber = false := by
  cases op <;> rfl

theorem text_ofOperator (op : Operator) : (Token.ofOperator op).text = op.text := by
  cases op <;> rfl

theorem tokenize_operationText (hx : x.isFinite = true) (hy : y.isFinite = true) (op : Operator) :
    tokenize (operationText x op y) = .ok (signedTokens x ++ .ofOperator op :: signedTokens y) := by
  apply tokenize_of_dropBlanks_eq
  · exact (readable_signedTokens hx).append (isNumber_ofOperator op) (readable_signedTokens hy)
  · have hspace : dropBlanks " ".toList = [] := rfl
    rw [joined_append, joined_cons, text_ofOperator, operationText]
    simp only [String.toList_append, dropBlanks_append, toList_text hx, toList_text hy, hspace, List.nil_append,
      List.append_assoc]

theorem tokenize_negationText (h : x.isFinite = true) :
    tokenize (negationText x) = .ok (.minus :: .leftParen :: signedTokens x ++ [.rightParen]) := by
  apply tokenize_of_dropBlanks_eq
  · exact readable_nil.append rfl (readable_nil.append rfl ((readable_signedTokens h).append rfl readable_nil))
  · have hopen : "-(".toList = joined [.minus, .leftParen] := rfl
    have hclose : ")".toList = joined [.rightParen] := rfl
    rw [negationText, String.toList_append, String.toList_append, toList_text h, hopen, hclose, ← joined_append,
      ← joined_append]
    rfl

theorem derives_operation (hx : x.isFinite = true) (hy : y.isFinite = true) (op : Operator) :
    Derives .sum (signedTokens x ++ .ofOperator op :: signedTokens y) (.binary (.number x) op (.number y)) :=
  (derives_signedTokens hx).binary op (derives_signedTokens hy)

theorem derives_negation (h : x.isFinite = true) :
    Derives .sum (.minus :: .leftParen :: signedTokens x ++ [.rightParen]) (.negated (.number x)) :=
  .ofProduct (.ofOperand (.minusGroup (.ofProduct (.ofOperand (derives_signedTokens h)))))

/-! ## Calculating them again -/

/-- Tokens of a text that are derived from the grammar are calculated as the tree means. -/
theorem calculateTraced_of_derives {text : String} {tokens : List Token} {tree : Expr}
    (htokens : tokenize text = .ok tokens) (h : Derives .sum tokens tree) (hdepth : tree.depth ≤ maxDepth) (t : Trace) :
    calculateTraced text t = (tree.meaning.1.mapError .evaluation, t.addSteps tree.meaning.2) :=
  calculateTraced_of_parse (parse_of_derives htokens h hdepth) t

/-- The meaning of a single operation is its outcome, with one step if there is a result. -/
theorem meaning_operation (x : Float) (op : Operator) (y : Float) :
    (Expr.binary (.number x) op (.number y)).meaning =
      match op.apply x y with
      | .ok z => (.ok z, [⟨operationText x op y, z⟩])
      | .error e => (.error e, []) := rfl

/-- Calculated again, the step's operation has the step's result and records the step and nothing else. -/
def Replays (step : Step) : Prop :=
  calculateTraced step.operation (.empty true) = (.ok step.result, ⟨#[step], true⟩)

theorem replays_operation (hx : x.isFinite = true) (hy : y.isFinite = true) (h : op.apply x y = .ok z) :
    Replays ⟨operationText x op y, z⟩ := by
  unfold Replays
  rw [calculateTraced_of_derives (tokenize_operationText hx hy op) (derives_operation hx hy op) (Nat.zero_le _),
    meaning_operation, h]
  rfl

theorem replays_negation (h : x.isFinite = true) : Replays ⟨negationText x, -x⟩ := by
  unfold Replays
  rw [calculateTraced_of_derives (tokenize_negationText h) (derives_negation h) (by decide : 1 ≤ maxDepth)]
  rfl

theorem calculate_operation (hx : x.isFinite = true) (hy : y.isFinite = true) {e : EvalError}
    (h : op.apply x y = .error e) : calculate (operationText x op y) = .error (.evaluation e) := by
  unfold calculate
  rw [calculateTraced_of_derives (tokenize_operationText hx hy op) (derives_operation hx hy op) (Nat.zero_le _),
    meaning_operation, h]
  rfl

theorem calculate_text (h : x.isFinite = true) : calculate (Number.text x) = .ok x := by
  unfold calculate
  rw [calculateTraced_of_derives (tokenize_text h) (.ofProduct (.ofOperand (derives_signedTokens h))) (Nat.zero_le _)]
  rfl

/-- The steps of finished operations can be calculated again. -/
theorem Expr.Performs.replays {e : Expr} {step : Step} (h : e.Performs step) (he : e.Finished) : Replays step := by
  cases h with
  | @negated inner x hx =>
    have hinner : inner.Finished := he
    exact replays_negation (hinner.isFinite_value x hx)
  | binary hx hy hgives =>
    exact replays_operation (he.1.isFinite_value _ hx) (he.2.isFinite_value _ hy) (Operator.gives_iff.1 hgives)

/-- An operation that overflows does so again. -/
theorem Expr.Fails.replays {e : Expr} {operation : String} (h : e.Fails (.overflow operation)) (he : e.Finished) :
    calculate operation = .error (.evaluation (.overflow operation)) := by
  rcases h with _ | ⟨hx, hy, hgives⟩
  have hx := he.1.isFinite_value _ hx
  have hy := he.2.isFinite_value _ hy
  have happly := Operator.gives_iff.1 hgives
  rcases hgives with _ | _
  exact calculate_operation hx hy happly

/-- What a detailed calculation records can be calculated again, whether it ends with a value or with an error: every
step gives its result and itself as the only step, the operation of an overflow overflows with the same text, and the text of
the value has that value. -/
theorem runCalculation_replayable (text : String) (before : Array Step) :
    (∃ steps : List Step, (runCalculation text ⟨before, true⟩).2 = ⟨before ++ steps.toArray, true⟩ ∧
      ∀ step ∈ steps, Replays step) ∧
    (∀ operation, (runCalculation text ⟨before, true⟩).1 = .error (.evaluation (.overflow operation)) →
      calculate operation = .error (.evaluation (.overflow operation))) ∧
    ∀ c, (runCalculation text ⟨before, true⟩).1 = .ok c → calculate (Number.text c.result) = .ok c.result := by
  refine ⟨?_, ?_, ?_⟩
  · rcases runCalculation_cases text ⟨before, true⟩ with ⟨e, -, hrun⟩ | ⟨tokens, tree, steps, hparse, hran, hrun⟩
    · exact ⟨[], by rw [hrun]; simp, nofun⟩
    · refine ⟨steps, by rw [hrun]; rfl, ?_⟩
      intro step hstep
      obtain ⟨node, hnode, hperforms⟩ := hran.exists_performs step hstep
      exact hperforms.replays ((finished_of_parse hparse).of_mem_operations node hnode)
  · intro operation hoverflow
    obtain ⟨tokens, tree, node, -, -, hfails, hfinished⟩ := overflow_run hoverflow
    exact hfails.replays hfinished
  · intro c hc
    have hsane := sane_run text ⟨before, true⟩
    rw [hc] at hsane
    exact calculate_text hsane

/-- A product that overflows before the subtraction after it comes up, and a negative zero with the step that makes it. -/
theorem replayable_overflow_and_negative_zero :
    ((runCalculation (echo [.number 1e200, .multiply, .number 1e200, .minus, .number 1]) ⟨#[], true⟩).1 =
        .error (.evaluation (.overflow (operationText 1e200 .multiply 1e200))) ∧
      calculate (operationText 1e200 .multiply 1e200) =
        .error (.evaluation (.overflow (operationText 1e200 .multiply 1e200)))) ∧
    (runCalculation "-(0)" ⟨#[], true⟩).1 =
        .ok ⟨[.minus, .leftParen, .number 0, .rightParen], .negated (.number 0), -0⟩ ∧
      calculate (Number.text (-0)) = .ok (-0) ∧
      (runCalculation "-(0)" ⟨#[], true⟩).2 = ⟨#[⟨negationText 0, -0⟩], true⟩ ∧ Replays ⟨negationText 0, -0⟩ := by
  have hlarge : Readable [.number 1e200] := readable_number (by decide +kernel) (by decide +kernel)
  have hreadable : Readable [.number 1e200, .multiply, .number 1e200, .minus, .number 1] :=
    hlarge.append rfl (hlarge.append rfl (readable_number (by decide) (by decide)))
  have hderives : Derives .sum [.number 1e200, .multiply, .number 1e200, .minus, .number 1]
      (.binary (.binary (.number 1e200) .multiply (.number 1e200)) .minus (.number 1)) :=
    @Derives.sum [.number 1e200, .multiply, .number 1e200] _ _ _ .minus rfl
      (.ofProduct (@Derives.product [.number 1e200] _ _ _ .multiply rfl (.ofOperand (.number _)) (.number _)))
      (.ofOperand (.number _))
  have happly : Operator.apply .multiply 1e200 1e200 = .error (.overflow (operationText 1e200 .multiply 1e200)) :=
    Operator.gives_iff.1 (.overflow nofun (by decide +kernel))
  have hoverflow : (runCalculation (echo [.number 1e200, .multiply, .number 1e200, .minus, .number 1]) ⟨#[], true⟩).1 =
      .error (.evaluation (.overflow (operationText 1e200 .multiply 1e200))) := by
    rw [runCalculation_of_parse (parse_of_derives (tokenize_echo hreadable) hderives (Nat.zero_le _)), Expr.meaning,
      meaning_operation, happly]
    simp only [Except.map, Except.mapError]
  have hzero : (runCalculation "-(0)" ⟨#[], true⟩).1 =
      .ok ⟨[.minus, .leftParen, .number 0, .rightParen], .negated (.number 0), -0⟩ := by decide +kernel
  have hagain := (runCalculation_replayable _ #[]).2.1 _ hoverflow
  have hvalue := (runCalculation_replayable _ #[]).2.2 _ hzero
  have htrace : (runCalculation "-(0)" ⟨#[], true⟩).2 = ⟨#[⟨negationText 0, -0⟩], true⟩ := by decide +kernel
  obtain ⟨steps, hsteps, hreplays⟩ := (runCalculation_replayable "-(0)" #[]).1
  have hrecorded : [⟨negationText 0, -0⟩] = steps := by simpa [htrace] using hsteps
  have hstep := hreplays ⟨negationText 0, -0⟩ (by rw [← hrecorded]; exact List.mem_singleton_self _)
  exact ⟨⟨hoverflow, hagain⟩, hzero, hvalue, htrace, hstep⟩

end Calculator
