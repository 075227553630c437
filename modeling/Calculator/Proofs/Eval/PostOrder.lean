import Calculator.Eval.Meaning
import Calculator.Proofs.Number.Pattern
/-!
# Evaluation carries out the operations of a tree in post-order

`Expr.value` is the recursive evaluator: left operand, right operand, then the operation. `CarriedOut` runs along the
operations of a tree in post-order and stops at the first that fails. The machine has the outcome of the first
and appends the steps of the second.

Main statement: `evaluateTraced_in_postOrder`.
-/

namespace Calculator

open Binary64 Number

/-! ## One operation -/

/-- Zero of either sign. -/
def IsZero (x : Float) : Prop := x.toBits.toNat = 0 ∨ x.toBits.toNat = signCode

theorem beq_zero_iff_isZero {x : Float} : (x == 0) = true ↔ IsZero x := by
  have hlt : x.toBits.toNat < 2 ^ 64 := x.toBits.toNat_lt
  rw [Binary64.beq_zero_iff, IsZero]
  unfold magnitude signCode
  omega

/-- What comes of an operation on two numbers. -/
inductive Operator.Gives (op : Operator) (x y : Float) : Except EvalError Float → Prop
  | divisionByZero : op = .divide → IsZero y → Gives op x y (.error .divisionByZero)
  | overflow : ¬ (op = .divide ∧ IsZero y) → (op.compute x y).isFinite = false →
      Gives op x y (.error (.overflow (operationText x op y)))
  | result : ¬ (op = .divide ∧ IsZero y) → (op.compute x y).isFinite = true →
      Gives op x y (.ok (op.compute x y))

theorem Operator.gives_apply (op : Operator) (x y : Float) : op.Gives x y (op.apply x y) := by
  unfold Operator.apply
  -- a zero is tried before the result is looked at
  split
  · next h => exact .divisionByZero h.1 (beq_zero_iff_isZero.1 h.2)
  · next h =>
    rw [beq_zero_iff_isZero] at h
    cases hfinite : (op.compute x y).isFinite with
    | true => exact .result h hfinite
    | false => exact .overflow h hfinite

theorem Operator.gives_iff {op : Operator} {x y : Float} {outcome : Except EvalError Float} :
    op.Gives x y outcome ↔ op.apply x y = outcome := by
  constructor
  · intro h
    unfold Operator.apply
    rcases h with ⟨hop, hzero⟩ | ⟨hdiv, hfinite⟩ | ⟨hdiv, hfinite⟩
    · rw [if_pos ⟨hop, beq_zero_iff_isZero.2 hzero⟩]
    all_goals rw [← beq_zero_iff_isZero] at hdiv
    · rw [if_neg hdiv, hfinite, if_neg (by decide)]
    · rw [if_neg hdiv, if_pos hfinite]
  · rintro rfl
    exact op.gives_apply x y

/-! ## Values and operations of a tree -/

namespace Expr

/-- The value of a tree, by recursion on it. -/
def value : Expr → Except EvalError Float
  | number x => .ok x
  | group inner => inner.value
  | negated inner => do
    let x ← inner.value
    return -x
  | binary left op right => do
    let x ← left.value
    let y ← right.value
    op.apply x y
  | slot => .error .emptySlot

/-- The operations of a tree and its empty slots, in post-order. -/
def operations : Expr → List Expr
  | number _ => []
  | group inner => inner.operations
  | negated inner => inner.operations ++ [negated inner]
  | binary left op right => left.operations ++ right.operations ++ [binary left op right]
  | slot => [slot]

/-- An operation takes the values of its operands to a finite result, which is shown in the step. -/
inductive Performs : Expr → Step → Prop
  | negated {inner : Expr} {x : Float} : inner.value = .ok x → Performs (.negated inner) ⟨negationText x, -x⟩
  | binary {left right : Expr} {op : Operator} {x y z : Float} : left.value = .ok x → right.value = .ok y →
      op.Gives x y (.ok z) → Performs (.binary left op right) ⟨operationText x op y, z⟩

/-- An operation fails on the values of its operands; an empty slot always does. -/
inductive Fails : Expr → EvalError → Prop
  | slot : Fails .slot .emptySlot
  | binary {left right : Expr} {op : Operator} {x y : Float} {err : EvalError} : left.value = .ok x →
      right.value = .ok y → op.Gives x y (.error err) → Fails (.binary left op right) err

theorem Performs.not_fails {e : Expr} {step : Step} {err : EvalError} (h : e.Performs step) : ¬ e.Fails err := by
  rintro (_ | ⟨hx', hy', hfails⟩)
  · cases h
  · rcases h with _ | ⟨hx, hy, hgives⟩
    obtain ⟨rfl⟩ := Except.ok.inj (hx.symm.trans hx')
    obtain ⟨rfl⟩ := Except.ok.inj (hy.symm.trans hy')
    cases (Operator.gives_iff.1 hgives).symm.trans (Operator.gives_iff.1 hfails)

theorem Fails.unique {e : Expr} {err err' : EvalError} (h : e.Fails err) (h' : e.Fails err') : err = err' := by
  rcases h with _ | ⟨hx, hy, hgives⟩
  · cases h'
    rfl
  · rcases h' with _ | ⟨hx', hy', hgives'⟩
    obtain ⟨rfl⟩ := Except.ok.inj (hx.symm.trans hx')
    obtain ⟨rfl⟩ := Except.ok.inj (hy.symm.trans hy')
    exact Except.error.inj ((Operator.gives_iff.1 hgives).symm.trans (Operator.gives_iff.1 hgives'))

end Expr

/-- Operations are carried out in order up to the first that fails, with the steps of those before it. -/
inductive CarriedOut : List Expr → List Step → Option EvalError → Prop
  | nil : CarriedOut [] [] none
  | cons {e : Expr} {step : Step} {es : List Expr} {steps : List Step} {failure : Option EvalError} :
      e.Performs step → CarriedOut es steps failure → CarriedOut (e :: es) (step :: steps) failure
  | fail {e : Expr} {err : EvalError} {es : List Expr} : e.Fails err → CarriedOut (e :: es) [] (some err)

namespace CarriedOut

variable {es es' : List Expr} {steps steps' : List Step} {failure : Option EvalError} {err : EvalError}

/-- Operations after a failure are not carried out. -/
theorem append_some (h : CarriedOut es steps (some err)) (es' : List Expr) :
    CarriedOut (es ++ es') steps (some err) := by
  generalize hfail : some err = failure at h
  induction h with
  | nil => cases hfail
  | cons hstep _ ih => exact .cons hstep (ih hfail)
  | fail hfails => exact .fail hfails

theorem append (h : CarriedOut es steps none) (h' : CarriedOut es' steps' failure) :
    CarriedOut (es ++ es') (steps ++ steps') failure := by
  generalize hnone : none = first at h
  induction h with
  | nil => exact h'
  | cons hstep _ ih => exact .cons hstep (ih hnone)
  | fail => cases hnone

/-- If none fails, there is a step for each operation. -/
theorem length_eq (h : CarriedOut es steps none) : steps.length = es.length := by
  generalize hnone : none = failure at h
  induction h with
  | nil => rfl
  | cons _ _ ih => rw [List.length_cons, List.length_cons, ih hnone]
  | fail => cases hnone

/-- The operation that failed had its operands. -/
theorem ne_missingOperand (h : CarriedOut es steps failure) : failure ≠ some .missingOperand := by
  induction h with
  | nil => nofun
  | cons _ _ ih => exact ih
  | fail hfails =>
    rintro ⟨⟩
    rcases hfails with _ | ⟨-, -, ⟨⟩⟩

/-- It is settled where the operations stop, and why. -/
theorem failure_unique (h : CarriedOut es steps failure) {failure' : Option EvalError}
    (h' : CarriedOut es steps' failure') : failure = failure' := by
  induction h generalizing steps' with
  | nil => cases h'; rfl
  | cons hstep _ ih =>
    rcases h' with _ | ⟨-, hrest⟩ | hfails
    · exact ih hrest
    · exact absurd hfails hstep.not_fails
  | fail hfails =>
    rcases h' with _ | ⟨hstep, -⟩ | hfails'
    · exact absurd hfails hstep.not_fails
    · rw [hfails.unique hfails']

/-- An empty slot is reached if the operations before it are carried out. -/
theorem of_slot {done : List Expr} (h : ∀ e ∈ done, ∃ step, e.Performs step) (rest : List Expr) :
    ∃ steps, CarriedOut (done ++ .slot :: rest) steps (some .emptySlot) := by
  induction done with
  | nil => exact ⟨[], .fail .slot⟩
  | cons e done ih =>
    obtain ⟨step, hstep⟩ := h e (by simp)
    have hdone : ∀ e ∈ done, ∃ step, e.Performs step := by
      intro e he
      exact h e (by simp [he])
    obtain ⟨steps, hran⟩ := ih hdone
    exact ⟨step :: steps, .cons hstep hran⟩

theorem exists_slot (h : CarriedOut es steps (some .emptySlot)) :
    ∃ done rest, es = done ++ .slot :: rest ∧ ∀ e ∈ done, ∃ step, e.Performs step := by
  generalize hempty : some EvalError.emptySlot = failure at h
  induction h with
  | nil => cases hempty
  | cons hstep _ ih =>
    obtain ⟨done, rest, rfl, hdone⟩ := ih hempty
    refine ⟨_ :: done, rest, rfl, ?_⟩
    intro e he
    rcases List.mem_cons.1 he with rfl | he
    · exact ⟨_, hstep⟩
    · exact hdone e he
  | fail hfails =>
    cases hempty
    rcases hfails with _ | ⟨-, -, ⟨⟩⟩
    exact ⟨[], _, rfl, nofun⟩

end CarriedOut

/-! ## The meaning of a tree -/

/-- The error of an outcome, if it is one. -/
def failure? : Except EvalError Float → Option EvalError
  | .ok _ => none
  | .error e => some e

/-- The meaning of a tree is its value, with the steps of the operations carried out on the way. -/
theorem meaning_spec (e : Expr) :
    ∃ steps, e.meaning = (e.value, steps) ∧ CarriedOut e.operations steps (failure? e.value) := by
  induction e with
  | number x => exact ⟨[], rfl, .nil⟩
  | slot => exact ⟨[], rfl, .fail .slot⟩
  | group inner ih => exact ih
  | negated inner ih =>
    obtain ⟨steps, hmeaning, hran⟩ := ih
    rw [Expr.meaning, Expr.value, Expr.operations, hmeaning]
    cases hvalue : inner.value with
    | error err =>
      rw [hvalue] at hran
      exact ⟨_, rfl, hran.append_some _⟩
    | ok x =>
      rw [hvalue] at hran
      exact ⟨_, rfl, hran.append (.cons (.negated hvalue) .nil)⟩
  | binary left op right ihl ihr =>
    obtain ⟨steps, hmeaning, hran⟩ := ihl
    obtain ⟨more, hmeaning', hran'⟩ := ihr
    rw [Expr.meaning, Expr.value, Expr.operations, hmeaning, hmeaning']
    cases hvalue : left.value with
    | error err =>
      -- neither the right operand nor the operation comes up
      rw [hvalue] at hran
      rw [List.append_assoc]
      exact ⟨_, rfl, hran.append_some _⟩
    | ok x =>
      rw [hvalue] at hran
      cases hvalue' : right.value with
      | error err =>
        rw [hvalue'] at hran'
        exact ⟨_, rfl, (hran.append hran').append_some _⟩
      | ok y =>
        rw [hvalue'] at hran'
        have hboth := hran.append hran'
        have hgives := op.gives_apply x y
        have hbind : (do let x ← Except.ok x; let y ← Except.ok y; op.apply x y) = op.apply x y := rfl
        rw [hbind]
        simp only
        cases hresult : op.apply x y with
        | error err =>
          rw [hresult] at hgives
          have hlast : CarriedOut [.binary left op right] [] (some err) := .fail (.binary hvalue hvalue' hgives)
          have hall := hboth.append hlast
          rw [List.append_nil] at hall
          exact ⟨_, rfl, hall⟩
        | ok z =>
          rw [hresult] at hgives
          exact ⟨_, rfl, hboth.append (.cons (.binary hvalue hvalue' hgives) .nil)⟩

/-- The machine computes the recursive value of every tree, and appends to a detailed trace the operations of the
tree in post-order, up to the one that failed or the empty slot that stopped it. It stops at an empty slot exactly if
every operation before one was carried out, and it never runs out of operands. -/
theorem evaluateTraced_in_postOrder (e : Expr) (t : Trace) :
    (∃ steps, CarriedOut e.operations steps (failure? e.value) ∧
      evaluateTraced e t = (e.value, ⟨t.steps ++ if t.detailed then steps.toArray else #[], t.detailed⟩)) ∧
    (e.value = .error .emptySlot ↔
      ∃ done rest, e.operations = done ++ .slot :: rest ∧ ∀ node ∈ done, ∃ step, node.Performs step) ∧
    e.value ≠ .error .missingOperand := by
  obtain ⟨steps, hmeaning, hran⟩ := meaning_spec e
  refine ⟨⟨steps, hran, ?_⟩, ?_, ?_⟩
  · rw [evaluateTraced_eq_meaning, hmeaning, Trace.addSteps]
    cases t with | mk steps detailed => cases detailed <;> simp
  · constructor
    · intro hslot
      rw [hslot] at hran
      exact hran.exists_slot
    · rintro ⟨done, rest, hops, hdone⟩
      obtain ⟨steps', hslot⟩ := CarriedOut.of_slot hdone rest
      rw [← hops] at hslot
      have hfailure := hran.failure_unique hslot
      cases hvalue : e.value with
      | ok x =>
        rw [hvalue] at hfailure
        cases hfailure
      | error err =>
        rw [hvalue] at hfailure
        rw [Option.some.inj hfailure]
  · intro hmissing
    rw [hmissing] at hran
    exact hran.ne_missingOperand rfl

end Calculator
