import Calculator.Calculation
import Calculator.Proofs.Eval.PostOrder
import Calculator.Proofs.Expr.Parsing
import Calculator.Proofs.Token.Lexing
/-!
# Calculations stay within the finite doubles

The numbers of a text are finite, a tree built of them has no empty slot, and an operation on finite numbers either has
a finite result or fails. So a calculation ends with a finite number or with an error that is the
text's, never with one that shows an unfinished tree.

Main statement: `runCalculation_safe`.
-/

namespace Calculator

/-! ## Finished trees -/

namespace Expr

/-- A tree without empty slots whose numbers are finite. -/
def Finished : Expr → Prop
  | number x => x.isFinite = true
  | group inner | negated inner => inner.Finished
  | binary left _ right => left.Finished ∧ right.Finished
  | slot => False

/-- The numbers of a tree from left to right. -/
def numbers : Expr → List Float
  | number x => [x]
  | group inner | negated inner => inner.numbers
  | binary left _ right => left.numbers ++ right.numbers
  | slot => []

theorem Finished.isFinite_of_mem {e : Expr} (h : e.Finished) : ∀ x ∈ e.numbers, x.isFinite = true := by
  induction e with
  | number x =>
    intro y hy
    obtain rfl := List.mem_singleton.1 hy
    exact h
  | group inner ih => exact ih h
  | negated inner ih => exact ih h
  | binary left op right ihl ihr =>
    intro x hx
    rcases List.mem_append.1 hx with hx | hx
    · exact ihl h.1 x hx
    · exact ihr h.2 x hx
  | slot => exact h.elim

/-- The operations of a finished tree are of finished trees. -/
theorem Finished.of_mem_operations {e : Expr} (h : e.Finished) : ∀ node ∈ e.operations, node.Finished := by
  induction e with
  | number x => nofun
  | group inner ih => exact ih h
  | negated inner ih =>
    intro node hnode
    rcases List.mem_append.1 hnode with hnode | hnode
    · exact ih h node hnode
    · obtain rfl := List.mem_singleton.1 hnode
      exact h
  | binary left op right ihl ihr =>
    intro node hnode
    rcases List.mem_append.1 hnode with hnode | hnode
    · rcases List.mem_append.1 hnode with hnode | hnode
      · exact ihl h.1 node hnode
      · exact ihr h.2 node hnode
    · obtain rfl := List.mem_singleton.1 hnode
      exact h
  | slot => exact h.elim

end Expr

/-- Expressions made of finite numbers have finished trees. -/
theorem Derives.finished {r : Rank} {ts : List Token} {e : Expr} (h : Derives r ts e)
    (hts : ∀ x, .number x ∈ ts → x.isFinite = true) : e.Finished := by
  induction h with
  | number x => exact hts x (by simp)
  | minusNumber x => exact Binary64.isFinite_neg (hts x (by simp))
  | group _ ih | minusGroup _ ih =>
    apply ih
    intro x hx
    exact hts x (by simp [hx])
  | ofOperand _ ih | ofProduct _ ih => exact ih hts
  | product op _ _ _ ihl ihr | sum op _ _ _ ihl ihr =>
    constructor
    · apply ihl
      intro x hx
      exact hts x (by simp [hx])
    · apply ihr
      intro x hx
      exact hts x (by simp [hx])

/-! ## Finite values and steps -/

/-- The result of an operation is finite. -/
theorem Operator.Gives.isFinite {op : Operator} {x y z : Float} (h : op.Gives x y (.ok z)) : z.isFinite = true := by
  rcases h with _ | _ | ⟨-, hfinite⟩
  exact hfinite

namespace Expr

/-- The value of a finished tree is finite. -/
theorem Finished.isFinite_value {e : Expr} (h : e.Finished) : ∀ z, e.value = .ok z → z.isFinite = true := by
  induction e with
  | number x =>
    intro z hz
    obtain rfl := Except.ok.inj hz
    exact h
  | group inner ih => exact ih h
  | negated inner ih =>
    intro z hz
    rw [value] at hz
    cases hx : inner.value with
    | error err =>
      rw [hx] at hz
      cases hz
    | ok x =>
      rw [hx] at hz
      obtain rfl := Except.ok.inj hz
      exact Binary64.isFinite_neg (ih h x hx)
  | binary left op right ihl ihr =>
    intro z hz
    rw [value] at hz
    cases hx : left.value with
    | error err =>
      rw [hx] at hz
      cases hz
    | ok x =>
      cases hy : right.value with
      | error err =>
        rw [hx, hy] at hz
        cases hz
      | ok y =>
        rw [hx, hy] at hz
        exact (Operator.gives_iff.2 hz).isFinite
  | slot => exact h.elim

theorem Performs.isFinite {e : Expr} {step : Step} (h : e.Performs step) (he : e.Finished) :
    step.result.isFinite = true := by
  cases h with
  | @negated inner x hx =>
    have hinner : inner.Finished := he
    exact Binary64.isFinite_neg (hinner.isFinite_value x hx)
  | binary _ _ hgives => exact hgives.isFinite

/-- An operation that overflows has finite operands. -/
theorem Fails.overflow {e : Expr} {operation : String} (h : e.Fails (.overflow operation)) (he : e.Finished) :
    ∃ left op right x y, e = .binary left op right ∧ left.value = .ok x ∧ right.value = .ok y ∧
      x.isFinite = true ∧ y.isFinite = true ∧ (op.compute x y).isFinite = false ∧
        operation = operationText x op y := by
  rcases h with _ | ⟨hx, hy, hgives⟩
  rcases hgives with _ | ⟨-, hfinite⟩
  exact ⟨_, _, _, _, _, rfl, hx, hy, he.1.isFinite_value _ hx, he.2.isFinite_value _ hy, hfinite, rfl⟩

theorem Fails.ne_emptySlot {e : Expr} {err : EvalError} (h : e.Fails err) (he : e.Finished) : err ≠ .emptySlot := by
  rintro rfl
  rcases h with _ | ⟨-, -, ⟨⟩⟩
  exact he

end Expr

/-- A step is that of one of the operations. -/
theorem CarriedOut.exists_performs {es : List Expr} {steps : List Step} {failure : Option EvalError}
    (h : CarriedOut es steps failure) : ∀ step ∈ steps, ∃ e ∈ es, e.Performs step := by
  induction h with
  | nil => nofun
  | cons hstep _ ih =>
    intro step hmem
    rcases List.mem_cons.1 hmem with rfl | hmem
    · exact ⟨_, by simp, hstep⟩
    · obtain ⟨e, he, hperforms⟩ := ih step hmem
      exact ⟨e, by simp [he], hperforms⟩
  | fail => nofun

/-- Steps of operations of finished trees are finite. -/
theorem CarriedOut.isFinite {es : List Expr} {steps : List Step} {failure : Option EvalError}
    (h : CarriedOut es steps failure) (hes : ∀ e ∈ es, e.Finished) : ∀ step ∈ steps, step.result.isFinite = true := by
  intro step hmem
  obtain ⟨e, he, hperforms⟩ := h.exists_performs step hmem
  exact hperforms.isFinite (hes e he)

/-- A failure is that of one of the operations. -/
theorem CarriedOut.exists_fails {es : List Expr} {steps : List Step} {err : EvalError}
    (h : CarriedOut es steps (some err)) : ∃ e ∈ es, e.Fails err := by
  generalize hfailure : some err = failure at h
  induction h with
  | nil => cases hfailure
  | cons _ _ ih =>
    obtain ⟨e, he, hfails⟩ := ih hfailure
    exact ⟨e, by simp [he], hfails⟩
  | fail hfails =>
    cases hfailure
    exact ⟨_, by simp, hfails⟩

/-! ## Whole calculations -/

variable {text : String} {tokens : List Token} {tree : Expr}

/-- Tokens derived from the grammar are parsed as their tree, unless too many groups stand inside one another. -/
theorem parse_eq_of_derives (htokens : tokenize text = .ok tokens) (h : Derives .sum tokens tree) :
    parse text = if tree.depth ≤ maxDepth then .ok (tokens, tree) else .error (.parse .nestedTooDeeply) := by
  obtain ⟨t, ts, rfl⟩ := List.exists_cons_of_ne_nil h.ne_nil
  unfold parse
  rw [htokens]
  simp only
  rw [build_of_derives h]
  by_cases hdepth : tree.depth ≤ maxDepth
  · rw [if_pos hdepth, if_pos hdepth]
  · rw [if_neg hdepth, if_neg hdepth]

theorem parse_of_derives (htokens : tokenize text = .ok tokens) (h : Derives .sum tokens tree)
    (hdepth : tree.depth ≤ maxDepth) : parse text = .ok (tokens, tree) := by
  rw [parse_eq_of_derives htokens h, if_pos hdepth]

theorem parse_eq_ok_iff :
    parse text = .ok (tokens, tree) ↔ tokenize text = .ok tokens ∧ tokens ≠ [] ∧ build tokens = .ok tree := by
  unfold parse
  constructor
  · intro h
    split at h
    · cases h
    · cases h
    · next ts hne htokens =>
      split at h
      · cases h
      · next e hbuild =>
        cases h
        refine ⟨htokens, ?_, hbuild⟩
        rintro rfl
        exact hne rfl
  · rintro ⟨htokens, hne, hbuild⟩
    obtain ⟨t, ts, rfl⟩ := List.exists_cons_of_ne_nil hne
    rw [htokens]
    simp only
    rw [hbuild]

/-- A text without a tree has no tokens, is blank, or has tokens that are no expression. -/
theorem parse_eq_error {e : CalcError} (h : parse text = .error e) :
    (∃ err, tokenize text = .error err ∧ e = .lex err) ∨ e = .emptyInput ∨ ∃ err, e = .parse err := by
  unfold parse at h
  split at h
  · next err htokens =>
    cases h
    exact .inl ⟨err, htokens, rfl⟩
  · cases h
    exact .inr (.inl rfl)
  · split at h
    · next err _ =>
      cases h
      exact .inr (.inr ⟨err, rfl⟩)
    · cases h

/-- The tree of a text is derived from its tokens, and not too deep. -/
theorem derives_of_parse (h : parse text = .ok (tokens, tree)) :
    tokenize text = .ok tokens ∧ Derives .sum tokens tree ∧ tree.depth ≤ maxDepth := by
  obtain ⟨htokens, hne, hbuild⟩ := parse_eq_ok_iff.1 h
  have hderives := derives_of_build hne hbuild
  refine ⟨htokens, hderives, ?_⟩
  by_contra hdepth
  rw [build_of_derives hderives, if_neg hdepth] at hbuild
  cases hbuild

/-- The tree of a text is finished: no empty slot comes to be evaluated. -/
theorem finished_of_parse (h : parse text = .ok (tokens, tree)) : tree.Finished := by
  obtain ⟨htokens, hderives, -⟩ := derives_of_parse h
  apply hderives.finished
  intro x hx
  exact (finite_of_tokenize htokens x hx).1

/-- A text that has a tree has the tree's meaning. -/
theorem runCalculation_of_parse (h : parse text = .ok (tokens, tree)) (t : Trace) :
    runCalculation text t =
      ((tree.meaning.1.map (Calculation.mk tokens tree)).mapError .evaluation, t.addSteps tree.meaning.2) := by
  unfold runCalculation
  rw [h]
  simp only
  rw [evaluateTraced_eq_meaning]
  rcases tree.meaning with ⟨_ | x, steps⟩
  · rfl
  · rfl

theorem calculateTraced_of_parse (h : parse text = .ok (tokens, tree)) (t : Trace) :
    calculateTraced text t = (tree.meaning.1.mapError .evaluation, t.addSteps tree.meaning.2) := by
  unfold calculateTraced
  rw [runCalculation_of_parse h]
  rcases tree.meaning with ⟨_ | x, steps⟩
  · rfl
  · rfl

/-- A calculation that comes as far as a tree has the outcome of its evaluation, any other leaves the trace alone. -/
theorem runCalculation_cases (text : String) (t : Trace) :
    (∃ e, (∀ err, e ≠ .evaluation err) ∧ runCalculation text t = (.error e, t)) ∨
      ∃ tokens tree steps, parse text = .ok (tokens, tree) ∧ CarriedOut tree.operations steps (failure? tree.value) ∧
        runCalculation text t =
          ((tree.value.map (Calculation.mk tokens tree)).mapError .evaluation, t.addSteps steps) := by
  cases hparse : parse text with
  | error e =>
    refine .inl ⟨e, ?_, by rw [runCalculation, hparse]⟩
    rintro err rfl
    unfold parse at hparse
    repeat' split at hparse
    all_goals cases hparse
  | ok parsed =>
    obtain ⟨tokens, tree⟩ := parsed
    obtain ⟨steps, hmeaning, hran⟩ := meaning_spec tree
    refine .inr ⟨tokens, tree, steps, rfl, hran, ?_⟩
    rw [runCalculation_of_parse hparse, hmeaning]

/-- A finite number, or an error that is the text's. -/
def Sane : Except CalcError Float → Prop
  | .ok x => x.isFinite = true
  | .error (.evaluation e) => e.isDefect = false
  | .error _ => True

/-- What holds of the calculation of any text. -/
structure SafeRun (text : String) (t : Trace) : Prop where
  /-- No empty slot and no missing operand is met, and every result is finite. -/
  sane : Sane ((runCalculation text t).1.map Calculation.result)
  sane_traced : Sane (calculateTraced text t).1
  sane_calculate : Sane (calculate text)
  /-- The tree that is evaluated has no empty slot. -/
  finished (tokens : List Token) (tree : Expr) : parse text = .ok (tokens, tree) → tree.Finished
  finite_numbers (c : Calculation) : (runCalculation text t).1 = .ok c → ∀ x ∈ c.tree.numbers, x.isFinite = true
  finite_steps : ∃ steps : List Step, (runCalculation text t).2.steps = t.steps ++ steps.toArray ∧
    ∀ step ∈ steps, step.result.isFinite = true
  /-- Only an operation of the tree on finite numbers overflows. -/
  overflow (operation : String) : (runCalculation text t).1 = .error (.evaluation (.overflow operation)) →
    ∃ tokens tree left op right x y, parse text = .ok (tokens, tree) ∧ .binary left op right ∈ tree.operations ∧
      left.value = .ok x ∧ right.value = .ok y ∧ x.isFinite = true ∧ y.isFinite = true ∧
        (op.compute x y).isFinite = false ∧ operation = operationText x op y
  /-- A group is cut out within its tokens. -/
  group_in_range (ts : List Token) (close : Nat) : matchingClose? ts = some close → close + 1 ≤ ts.length
  /-- The counter of a search never falls below zero. -/
  counter (before after : List Token) : matchingClose? before = none →
    before.count .rightParen ≤ before.count .leftParen ∧ matchingClose? (before ++ after) =
      closeFrom before.length (before.count .leftParen - before.count .rightParen) after

theorem sane_run (text : String) (t : Trace) : Sane ((runCalculation text t).1.map Calculation.result) := by
  rcases runCalculation_cases text t with ⟨e, he, hrun⟩ | ⟨tokens, tree, steps, hparse, hran, hrun⟩
  · rw [hrun]
    cases e with
    | evaluation err => exact absurd rfl (he err)
    | _ => trivial
  · have htree := finished_of_parse hparse
    rw [hrun]
    cases hvalue : tree.value with
    | ok x => exact htree.isFinite_value x hvalue
    | error err =>
      rw [hvalue] at hran
      obtain ⟨node, hnode, hfails⟩ := hran.exists_fails
      have hslot := hfails.ne_emptySlot (htree.of_mem_operations node hnode)
      have hmissing : err ≠ .missingOperand := by
        rintro rfl
        exact hran.ne_missingOperand rfl
      cases err with
      | emptySlot => exact absurd rfl hslot
      | missingOperand => exact absurd rfl hmissing
      | _ => rfl

theorem finite_steps_run (text : String) (t : Trace) :
    ∃ steps : List Step, (runCalculation text t).2.steps = t.steps ++ steps.toArray ∧
      ∀ step ∈ steps, step.result.isFinite = true := by
  rcases runCalculation_cases text t with ⟨e, -, hrun⟩ | ⟨tokens, tree, steps, hparse, hran, hrun⟩
  · exact ⟨[], by rw [hrun]; simp, nofun⟩
  · rw [hrun]
    by_cases hdetailed : t.detailed = true
    · refine ⟨steps, ?_, hran.isFinite (finished_of_parse hparse).of_mem_operations⟩
      rw [Trace.addSteps, if_pos hdetailed]
    · exact ⟨[], by rw [Trace.addSteps, if_neg hdetailed]; simp, nofun⟩

theorem overflow_run {text : String} {t : Trace} {operation : String}
    (h : (runCalculation text t).1 = .error (.evaluation (.overflow operation))) :
    ∃ tokens tree node, parse text = .ok (tokens, tree) ∧ node ∈ tree.operations ∧
      node.Fails (.overflow operation) ∧ node.Finished := by
  rcases runCalculation_cases text t with ⟨e, he, hrun⟩ | ⟨tokens, tree, steps, hparse, hran, hrun⟩
  · rw [hrun] at h
    exact absurd (Except.error.inj h) (he _)
  · rw [hrun] at h
    cases hvalue : tree.value with
    | ok x =>
      rw [hvalue] at h
      cases h
    | error err =>
      rw [hvalue] at h hran
      obtain rfl := CalcError.evaluation.inj (Except.error.inj h)
      obtain ⟨node, hnode, hfails⟩ := hran.exists_fails
      exact ⟨tokens, tree, node, hparse, hnode, hfails, (finished_of_parse hparse).of_mem_operations node hnode⟩

theorem parse_of_run {text : String} {t : Trace} {c : Calculation} (h : (runCalculation text t).1 = .ok c) :
    parse text = .ok (c.tokens, c.tree) := by
  rcases runCalculation_cases text t with ⟨e, -, hrun⟩ | ⟨tokens, tree, steps, hparse, -, hrun⟩
  · rw [hrun] at h
    cases h
  · rw [hrun] at h
    cases hvalue : tree.value with
    | error err =>
      rw [hvalue] at h
      cases h
    | ok x =>
      rw [hvalue] at h
      obtain rfl := Except.ok.inj h
      exact hparse

theorem finite_numbers_run {text : String} {t : Trace} {c : Calculation} (h : (runCalculation text t).1 = .ok c) :
    ∀ x ∈ c.tree.numbers, x.isFinite = true :=
  (finished_of_parse (parse_of_run h)).isFinite_of_mem

/-- Calculations are safe, whatever the text and the trace. -/
theorem runCalculation_safe (text : String) (t : Trace) : SafeRun text t where
  sane := sane_run text t
  sane_traced := sane_run text t
  sane_calculate := sane_run text (.empty false)
  finished _ _ := finished_of_parse
  finite_numbers _ := finite_numbers_run
  finite_steps := finite_steps_run text t
  overflow operation h := by
    obtain ⟨tokens, tree, node, hparse, hnode, hfails, hfinished⟩ := overflow_run h
    obtain ⟨left, op, right, x, y, rfl, hrest⟩ := hfails.overflow hfinished
    exact ⟨tokens, tree, left, op, right, x, y, hparse, hnode, hrest⟩
  group_in_range _ _ := matchingClose?_lt
  counter before after h := by
    obtain ⟨hle, hon⟩ := closeFrom_of_none h
    rw [Nat.zero_add] at hle
    refine ⟨hle, ?_⟩
    rw [matchingClose?, hon, Nat.zero_add, Nat.zero_add]

end Calculator
