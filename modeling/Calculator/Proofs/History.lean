import Calculator.Proofs.Calculation
import Calculator.Proofs.Expr.Progress
/-!
# One trace for many calculations

A trace may be handed from one calculation to the next, and be written to and switched in between. Whatever has
happened to it, a calculation gives back what it gives without a trace: it never reads the steps, and all that its mode
decides is whether the steps of the calculation are added behind those already there.

A `Use` is one thing that is done with a trace. `perform_eq` says what a single use makes of any trace, and everything
about a history of uses follows from it by induction on the history.

Main statement: `performAll_transparent`.
-/

namespace Calculator

/-! ## Uses of a trace -/

/-- One thing that is done with a trace. -/
inductive Use where
  | calculate (text : String)
  | evaluate (tree : Expr)
  | addStep (operation : String) (result : Float)
  | setDetailed (detailed : Bool)

/-- What a use gives back. -/
inductive Answer where
  | calculated (outcome : Except CalcError Float)
  | evaluated (outcome : Except EvalError Float)
  | nothing

namespace Use

/-- What a use gives back, and the trace after it. -/
def perform (t : Trace) : Use → Answer × Trace
  | calculate text => (.calculated (calculateTraced text t).1, (calculateTraced text t).2)
  | evaluate tree => (.evaluated (evaluateTraced tree t).1, (evaluateTraced tree t).2)
  | addStep operation result => (.nothing, t.addStep operation result)
  | setDetailed detailed => (.nothing, { t with detailed })

/-- What a use gives back where there is no trace. -/
def untraced : Use → Answer
  | calculate text => .calculated (Calculator.calculate text)
  | evaluate tree => .evaluated (Calculator.evaluate tree)
  | addStep .. | setDetailed _ => .nothing

/-- The steps that a use adds to a fresh trace that asks for details. -/
def freshSteps (u : Use) : List Step := (u.perform (.empty true)).2.steps.toList

/-- Whether the trace asks for details after a use. Only one kind of use has a say in it. -/
def mode (detailed : Bool) : Use → Bool
  | setDetailed detailed => detailed
  | calculate _ | evaluate _ | addStep .. => detailed

end Use

/-- A history of uses of one trace: what each gives back, and the trace after the last. -/
def performAll (t : Trace) : List Use → List Answer × Trace
  | [] => ([], t)
  | u :: us => ((u.perform t).1 :: (performAll (u.perform t).2 us).1, (performAll (u.perform t).2 us).2)

/-- The trace after a history. -/
def Trace.after (t : Trace) (us : List Use) : Trace := (performAll t us).2

/-! ## One use -/

/-- A calculation has the same outcome with any trace, and adds the same steps to any trace that asks for details. -/
theorem calculateTraced_eq (text : String) :
    ∃ steps, (∀ e, calculate text = .error e → (∀ err, e ≠ .evaluation err) → steps = []) ∧
      ∀ t, calculateTraced text t = (calculate text, t.addSteps steps) := by
  cases hparse : parse text with
  | error e =>
    have htraced (t : Trace) : calculateTraced text t = (.error e, t) := by
      rw [calculateTraced, runCalculation, hparse]
      rfl
    refine ⟨[], fun _ _ _ => rfl, fun t => ?_⟩
    rw [calculate, htraced, htraced, Trace.addSteps_nil]
  | ok parsed =>
    obtain ⟨tokens, tree⟩ := parsed
    have houtcome : calculate text = tree.meaning.1.mapError .evaluation := by
      rw [calculate, calculateTraced_of_parse hparse]
    refine ⟨tree.meaning.2, ?_, fun t => by rw [calculateTraced_of_parse hparse, houtcome]⟩
    -- what comes as far as a tree fails in its evaluation only
    intro e he hne
    rw [houtcome] at he
    cases hmeaning : tree.meaning.1 with
    | ok x =>
      rw [hmeaning] at he
      cases he
    | error err =>
      rw [hmeaning] at he
      exact absurd (Except.error.inj he).symm (hne err)

theorem toList_addSteps_empty (steps : List Step) : ((Trace.empty true).addSteps steps).steps.toList = steps := by
  rw [Trace.toList_steps_addSteps]
  rfl

/-- What a use makes of a trace depends on whether the trace asks for details, and on nothing that it holds. -/
theorem perform_eq (u : Use) (t : Trace) :
    (u.perform t).1 = u.untraced ∧ (u.perform t).2.detailed = u.mode t.detailed ∧
      (u.perform t).2.steps.toList = t.steps.toList ++ if t.detailed then u.freshSteps else [] := by
  cases u with
  | calculate text =>
    obtain ⟨steps, -, htraced⟩ := calculateTraced_eq text
    simp only [Use.perform, Use.freshSteps, htraced, toList_addSteps_empty]
    exact ⟨rfl, t.detailed_addSteps steps, t.toList_steps_addSteps steps⟩
  | evaluate tree =>
    simp only [Use.perform, Use.freshSteps, evaluateTraced_eq_meaning, toList_addSteps_empty]
    refine ⟨?_, t.detailed_addSteps _, t.toList_steps_addSteps _⟩
    rw [Use.untraced, evaluate, evaluateTraced_eq_meaning]
  | addStep operation result =>
    simp only [Use.perform, Use.freshSteps, Trace.addStep_eq_addSteps, toList_addSteps_empty]
    exact ⟨rfl, t.detailed_addSteps _, t.toList_steps_addSteps _⟩
  | setDetailed detailed =>
    refine ⟨rfl, rfl, ?_⟩
    simp [Use.perform, Use.freshSteps, Trace.empty]

/-! ## Histories -/

theorem after_append (t : Trace) (us vs : List Use) : t.after (us ++ vs) = (t.after us).after vs := by
  induction us generalizing t with
  | nil => rfl
  | cons u us ih => exact ih _

/-- No answer depends on the trace. -/
theorem answers_performAll (t : Trace) (us : List Use) : (performAll t us).1 = us.map Use.untraced := by
  induction us generalizing t with
  | nil => rfl
  | cons u us ih => rw [performAll, ih, (perform_eq u t).1, List.map_cons]

/-- What is recorded stays as it is. -/
theorem steps_prefix_after (t : Trace) (us : List Use) : t.steps.toList <+: (t.after us).steps.toList := by
  induction us generalizing t with
  | nil => exact List.prefix_refl _
  | cons u us ih =>
    have hfirst : t.steps.toList <+: (u.perform t).2.steps.toList := by
      rw [(perform_eq u t).2.2]
      exact List.prefix_append _ _
    exact hfirst.trans (ih _)

/-! ## Trees that can be evaluated -/

theorem slot_not_mem_operations {e : Expr} (h : e.slots = 0) : .slot ∉ e.operations := by
  induction e with
  | number x => simp [Expr.operations]
  | slot => cases h
  | group inner ih => exact ih h
  | negated inner ih => simpa [Expr.operations] using ih h
  | binary left op right ihl ihr =>
    obtain ⟨hl, hr⟩ := Nat.add_eq_zero_iff.1 h
    simpa [Expr.operations] using And.intro (ihl hl) (ihr hr)

/-- The evaluation of a tree that lacks no operand ends with a value or with an error of the expression's own. -/
theorem not_isDefect_of_slots {e : Expr} (h : e.slots = 0) (t : Trace) {err : EvalError}
    (herr : (evaluateTraced e t).1 = .error err) : err.isDefect = false := by
  obtain ⟨steps, hmeaning, hran⟩ := meaning_spec e
  rw [evaluateTraced_eq_meaning, hmeaning] at herr
  have hvalue : e.value = .error err := herr
  rw [hvalue] at hran
  cases err with
  | divisionByZero | overflow _ => rfl
  | missingOperand => exact absurd rfl hran.ne_missingOperand
  | emptySlot =>
    obtain ⟨before, rest, hoperations, -⟩ := hran.exists_slot
    exact absurd (by simp [hoperations]) (slot_not_mem_operations h)

/-! ## The main statement -/

/-- What it means that a use of a trace is transparent. -/
def Transparent (t : Trace) : Use → Prop
  | .calculate text =>
    (calculateTraced text t).1 = calculate text ∧ (calculateTraced text t).2.detailed = t.detailed ∧
      (calculateTraced text t).2.steps.toList =
        t.steps.toList ++ (if t.detailed then (calculateTraced text (.empty true)).2.steps.toList else []) ∧
      ∀ e, calculate text = .error e → (∀ err, e ≠ .evaluation err) → (calculateTraced text t).2 = t
  | .evaluate tree =>
    (evaluateTraced tree t).1 = evaluate tree ∧ (evaluateTraced tree t).2.detailed = t.detailed ∧
      (evaluateTraced tree t).2.steps.toList =
        t.steps.toList ++ (if t.detailed then (evaluateTraced tree (.empty true)).2.steps.toList else []) ∧
      (tree.slots = 0 → ∀ err, (evaluateTraced tree t).1 = .error err → err.isDefect = false)
  | .addStep operation result =>
    (t.addStep operation result).detailed = t.detailed ∧
      (t.addStep operation result).steps.toList = t.steps.toList ++ if t.detailed then [⟨operation, result⟩] else []
  | .setDetailed detailed => ((Use.setDetailed detailed).perform t).2 = ⟨t.steps, detailed⟩

theorem transparent (t : Trace) (u : Use) : Transparent t u := by
  have hperform := perform_eq u t
  cases u with
  | calculate text =>
    obtain ⟨houtcome, hmode, hsteps⟩ := hperform
    refine ⟨Answer.calculated.inj houtcome, hmode, hsteps, ?_⟩
    intro e he hne
    obtain ⟨steps, hnone, htraced⟩ := calculateTraced_eq text
    rw [htraced, hnone e he hne, Trace.addSteps_nil]
  | evaluate tree =>
    obtain ⟨houtcome, hmode, hsteps⟩ := hperform
    exact ⟨Answer.evaluated.inj houtcome, hmode, hsteps, fun h _ => not_isDefect_of_slots h t⟩
  | addStep operation result =>
    rw [Transparent, Trace.addStep_eq_addSteps]
    exact ⟨t.detailed_addSteps _, t.toList_steps_addSteps _⟩
  | setDetailed detailed => rfl

/-- Tracing is transparent over whole histories. Whatever was done with a trace before, the answers are those given without
one, the steps recorded at any moment stay in front of all that is recorded later, and each use finds the trace as those
before it have left it: a calculation or an evaluation adds no step if the trace does not ask for details, and else the
steps that it adds to a fresh trace, and a text that is no expression adds none. -/
theorem performAll_transparent (start : Trace) (us : List Use) :
    (performAll start us).1 = us.map Use.untraced ∧
      (∀ vs, (start.after us).steps.toList <+: (start.after (us ++ vs)).steps.toList) ∧
      ∀ u, Transparent (start.after us) u ∧ start.after (us ++ [u]) = (u.perform (start.after us)).2 := by
  refine ⟨answers_performAll start us, ?_, ?_⟩
  · intro vs
    rw [after_append]
    exact steps_prefix_after _ vs
  · intro u
    exact ⟨transparent _ u, after_append start us [u]⟩

end Calculator
