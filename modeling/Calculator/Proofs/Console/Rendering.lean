import Calculator.Proofs.Console.Reports
import Calculator.Proofs.Expr.Counting
import Calculator.Proofs.Grouping
/-!
# The lines of a report

A report has a line for the result, which is always the same, a line for the tree if it is asked for, and a section with the
steps if they are asked for and there are any. None of them can break a line of its own, so they are the lines of the output.
How many steps there are can be told from the tokens (`length_detailedSteps`).

Main statement: `render_lines`.
-/

namespace Calculator.Console

variable {text : String} {tokens : List Token} {tree : Expr} {details showTree : Bool}

/-! ## Lines -/

theorem joinLines_append (lines more : List String) : joinLines (lines ++ more) = joinLines lines ++ joinLines more := by
  induction lines with
  | nil => exact String.empty_append.symm
  | cons line lines ih =>
    rw [List.cons_append, joinLines, ih, joinLines]
    simp only [String.append_assoc]

def resultLine (tokens : List Token) (x : Float) : String := echo tokens ++ " = " ++ Number.text x

def treeLine (tree : Expr) : String := "  Tree: " ++ tree.text

def stepLine (number : Nat) (s : Step) : String :=
  "  Step " ++ toString number ++ ": " ++ s.operation ++ " = " ++ Number.text s.result

/-- The steps with their numbers, from one on, behind a header. There is no header if there are no steps. -/
def stepSection : List Step → List String
  | [] => []
  | steps => "  Step-by-step evaluation:" :: (steps.zipIdx 1).map fun (s, number) => stepLine number s

theorem stepLines_eq (number : Nat) (steps : List Step) (written : String) :
    stepLines number steps written =
      written ++ joinLines ((steps.zipIdx number).map fun (s, number) => stepLine number s) := by
  induction steps generalizing number written with
  | nil => exact String.append_empty.symm
  | cons s steps ih =>
    rw [stepLines, ih, List.zipIdx_cons, List.map_cons, joinLines]
    simp only [stepLine, String.append_assoc]

/-- The lines of a report. -/
def reportLines (tokens : List Token) (tree : Expr) (x : Float) (steps : List Step) (details showTree : Bool) :
    List String :=
  resultLine tokens x :: ((if showTree then [treeLine tree] else []) ++ if details then stepSection steps else [])

theorem report_eq_joinLines (c : Calculation) (steps : List Step) (details showTree : Bool) :
    c.report steps details showTree = joinLines (reportLines c.tokens c.tree c.result steps details showTree) := by
  have htree : (if showTree then "  Tree: " ++ c.tree.text ++ "\n" else "") =
      joinLines (if showTree then [treeLine c.tree] else []) := by
    cases showTree with
    | false => rfl
    | true => exact String.append_empty.symm
  have hsteps : (if details && !steps.isEmpty then stepLines 1 steps "  Step-by-step evaluation:\n" else "") =
      joinLines (if details then stepSection steps else []) := by
    cases details with
    | false => rfl
    | true =>
      cases steps with
      | nil => rfl
      | cons s steps => exact stepLines_eq 1 (s :: steps) _
  rw [Calculation.report, htree, hsteps, reportLines, joinLines, joinLines_append, resultLine]
  simp only [String.append_assoc]

/-! ## Single lines -/

theorem singleLine_echoOnto {written : String} (h : SingleLine written) (p : Place) (ts : List Token) :
    SingleLine (echoOnto written p ts) := by
  induction ts generalizing written p with
  | nil => exact h
  | cons t ts ih =>
    have hgap : SingleLine (p.gap t) := by
      unfold Place.gap
      split <;> decide
    exact ih ((h.append hgap).append (singleLine_token t)) _

theorem singleLine_tree (tree : Expr) : SingleLine tree.text := by
  rw [Expr.text_eq_shown]
  induction tree with
  | number x => exact singleLine_number x
  | slot => decide
  | group inner ih => exact (SingleLine.append (by decide) ih).append (by decide)
  | negated inner ih => exact (SingleLine.append (by decide) ih).append (by decide)
  | binary left op right ihl ihr =>
    have hop : SingleLine (" " ++ op.text ++ " ") := by cases op <;> decide
    exact ((((SingleLine.append (by decide) ihl).append hop).append ihr).append (by decide))

theorem singleLine_step {e : Expr} {s : Step} (h : e.Performs s) : SingleLine s.operation := by
  cases h with
  | negated => exact (SingleLine.append (by decide) (singleLine_number _)).append (by decide)
  | binary => exact singleLine_operation _ _ _

theorem singleLine_stepLine {s : Step} (h : SingleLine s.operation) (number : Nat) : SingleLine (stepLine number s) := by
  have hstart : SingleLine "  Step " := by decide
  have hcolon : SingleLine ": " := by decide
  have hequals : SingleLine " = " := by decide
  exact ((((hstart.append (singleLine_toString number)).append hcolon).append h).append hequals).append
    (singleLine_number s.result)

theorem singleLine_stepSection {steps : List Step} (h : ∀ s ∈ steps, SingleLine s.operation) :
    ∀ line ∈ stepSection steps, SingleLine line := by
  intro line hline
  unfold stepSection at hline
  split at hline
  · cases hline
  · rcases List.mem_cons.1 hline with rfl | hstep
    · decide
    · obtain ⟨⟨s, number⟩, hmem, rfl⟩ := List.mem_map.1 hstep
      exact singleLine_stepLine (h s (List.fst_mem_of_mem_zipIdx hmem)) number

theorem singleLine_reportLines {steps : List Step} (h : ∀ s ∈ steps, SingleLine s.operation) (tokens : List Token)
    (tree : Expr) (x : Float) (details showTree : Bool) :
    ∀ line ∈ reportLines tokens tree x steps details showTree, SingleLine line := by
  have hresult : SingleLine (resultLine tokens x) :=
    ((singleLine_echoOnto (by decide) _ tokens).append (by decide)).append (singleLine_number x)
  have htree : SingleLine (treeLine tree) := SingleLine.append (by decide) (singleLine_tree tree)
  refine List.forall_mem_cons.2 ⟨hresult, List.forall_mem_append.2 ⟨?_, ?_⟩⟩
  · cases showTree with
    | false => nofun
    | true => simpa using htree
  · cases details with
    | false => nofun
    | true => exact singleLine_stepSection h

/-! ## The steps of a calculation -/

theorem value_of_calculate {x : Float} (h : parse text = .ok (tokens, tree)) (hx : calculate text = .ok x) :
    tree.value = .ok x := by
  rwa [calculate_of_parse h, mapError_eq_ok_iff] at hx

/-- The steps of a calculation with a result are those of all operations of its tree. -/
theorem carriedOut_detailedSteps {x : Float} (h : parse text = .ok (tokens, tree)) (hx : calculate text = .ok x) :
    CarriedOut tree.operations (detailedSteps text) none := by
  obtain ⟨steps, hmeaning, hran⟩ := meaning_spec tree
  rw [value_of_calculate h hx] at hran
  rw [detailedSteps_of_parse h, hmeaning]
  exact hran

/-- There is a step for each operator sign that is no sign of a number. -/
theorem length_detailedSteps {x : Float} (h : parse text = .ok (tokens, tree)) (hx : calculate text = .ok x) :
    (detailedSteps text).length + signCount true tokens = operatorCount tokens := by
  obtain ⟨-, hderives, -⟩ := derives_of_parse h
  rw [(carriedOut_detailedSteps h hx).length_eq, hderives.length_operations]

/-- The last step gives the value of the tree. -/
theorem result_getLast?_meaning {e : Expr} {x : Float} (hx : e.value = .ok x) :
    ∀ last, e.meaning.2.getLast? = some last → last.result = x := by
  induction e with
  | number y => nofun
  | slot => nofun
  | group inner ih => exact ih hx
  | negated inner =>
    obtain ⟨_, -, -, hsteps⟩ := steps_meaning_negated hx
    intro last hlast
    rw [hsteps, List.getLast?_concat] at hlast
    cases hlast
    rfl
  | binary left op right =>
    obtain ⟨_, _, -, -, hsteps⟩ := steps_meaning_binary hx
    intro last hlast
    rw [hsteps, List.getLast?_concat] at hlast
    cases hlast
    rfl

/-! ## Reports and calculations -/

theorem render_eq (text : String) (details showTree : Bool) :
    render text details showTree = (runCalculation text (.empty details)).1.map fun c =>
      c.report (runCalculation text (.empty details)).2.steps.toList details showTree := rfl

theorem error_of_render {e : CalcError} (h : render text details showTree = .error e) :
    (runCalculation text (.empty details)).1 = .error e := by
  rw [render_eq] at h
  exact map_eq_error_iff.1 h

theorem render_of_parse (h : parse text = .ok (tokens, tree)) :
    render text details showTree = (calculate text).map fun x =>
      joinLines (reportLines tokens tree x (detailedSteps text) details showTree) := by
  obtain ⟨steps, hmeaning, -⟩ := meaning_spec tree
  -- without details no steps are recorded, and the report has no use for them
  have hlines (x : Float) : (Calculation.mk tokens tree x).report
      ((Trace.empty details).addSteps steps).steps.toList details showTree =
        joinLines (reportLines tokens tree x steps details showTree) := by
    rw [report_eq_joinLines, Trace.toList_steps_addSteps]
    cases details with
    | false => rfl
    | true => rfl
  rw [render_eq, runCalculation_of_parse h, calculate_of_parse h, detailedSteps_of_parse h, hmeaning]
  cases tree.value with
  | error err => rfl
  | ok x => exact congrArg Except.ok (hlines x)

theorem render_of_parse_error {e : CalcError} (h : parse text = .error e) : render text details showTree = .error e := by
  rw [render, runCalculation, h]
  rfl

/-- A text has a report if it has a value, and has the same error otherwise. -/
theorem render_eq_error_iff {e : CalcError} : render text details showTree = .error e ↔ calculate text = .error e := by
  cases hparse : parse text with
  | error err => rw [render_of_parse_error hparse, calculate_of_parse_error hparse, Except.error.injEq, Except.error.injEq]
  | ok parsed => rw [render_of_parse hparse, map_eq_error_iff]

/-! ## The main statement -/

/-- What a text is rendered as. With any flags it fails as its calculation does. If the text has a value, the report begins
with the same line whatever the flags: the echo of its tokens and the value. The line of the tree is there if it is asked
for, and last come the steps if they are asked for, numbered from one on, under a header that is there if there are any.
There are as many steps as operator signs, less the minus signs right before a number where an operand is due, and the
last of them gives the value. -/
theorem render_lines (text : String) :
    (∀ details showTree e, render text details showTree = .error e ↔ calculate text = .error e) ∧
    ∀ x, calculate text = .ok x → ∃ tokens tree, tokenize text = .ok tokens ∧ build tokens = .ok tree ∧
      (∀ details showTree,
        render text details showTree =
          .ok (joinLines (reportLines tokens tree x (detailedSteps text) details showTree)) ∧
        ∀ line ∈ reportLines tokens tree x (detailedSteps text) details showTree, SingleLine line) ∧
      (detailedSteps text).length + signCount true tokens = operatorCount tokens ∧
      ∀ last, (detailedSteps text).getLast? = some last → last.result = x := by
  refine ⟨fun _ _ _ => render_eq_error_iff, ?_⟩
  intro x hx
  obtain ⟨tokens, tree, hparse⟩ := (isExpression_of_ok hx).exists_parse
  obtain ⟨htokens, -, hbuild⟩ := parse_eq_ok_iff.1 hparse
  have hran := carriedOut_detailedSteps hparse hx
  have hsingle : ∀ s ∈ detailedSteps text, SingleLine s.operation := by
    intro s hs
    obtain ⟨_, -, hperforms⟩ := hran.exists_performs s hs
    exact singleLine_step hperforms
  refine ⟨tokens, tree, htokens, hbuild, ?_, length_detailedSteps hparse hx, ?_⟩
  · intro details showTree
    refine ⟨?_, singleLine_reportLines hsingle tokens tree x details showTree⟩
    rw [render_of_parse hparse, hx]
    rfl
  · rw [detailedSteps_of_parse hparse]
    exact result_getLast?_meaning (value_of_calculate hparse hx)

/-- Five operator signs, one of them the sign of a number. -/
theorem render_lines_of_five_signs :
    calculate "2*-3--(4/5)" = .ok (-5.2) ∧ (detailedSteps "2*-3--(4/5)").length = 4 ∧
      ∀ last, (detailedSteps "2*-3--(4/5)").getLast? = some last → last.result = -5.2 := by
  have hvalue : calculate "2*-3--(4/5)" = .ok (-5.2) := by decide +kernel
  obtain ⟨tokens, tree, htokens, -, -, hcount, hlast⟩ := (render_lines "2*-3--(4/5)").2 _ hvalue
  have hread : tokenize "2*-3--(4/5)" = .ok [.number 2, .multiply, .minus, .number 3, .minus, .minus, .leftParen,
      .number 4, .divide, .number 5, .rightParen] := by decide +kernel
  obtain rfl := Except.ok.inj (htokens.symm.trans hread)
  exact ⟨hvalue, Nat.add_right_cancel hcount, hlast⟩

end Calculator.Console
