import Calculator.Proofs.Expr.Steps
import Mathlib.Logic.Function.Iterate
/-!
# Builds end

A step that does not end a build leaves a suffix of its tokens, shorter by two or more. So whatever tree it starts with,
stepping n tokens comes to an end within n / 2 + 1 steps, and what it comes to is the result of the build. The bound on
the steps of a build is never met, neither outside all groups nor inside one, and so the result given to a build that has
not ended could be any other (`buildOr_eq`).

Main statement: `steps_end_as_build`.
-/

namespace Calculator

open BuildState

variable {root root' : Option PartialTree} {ts rest : List Token}

/-! ## What steps leave -/

section Steps

variable {build : GroupBuilder}

theorem suffix_advance (h : (inProgress root ts).advance build = .inProgress root' rest) : rest <:+ ts := by
  have hadv := advance_cases build root ts
  rw [h] at hadv
  cases hadv with
  | @goOn us _ e op hus => exact ⟨us ++ [.ofOperator op], by simp⟩

/-- So many steps that do not end a build take at least twice as many tokens. -/
theorem suffix_run {n : Nat} (h : (inProgress root ts).run build n = .inProgress root' rest) :
    rest <:+ ts ∧ rest.length + 2 * n ≤ ts.length := by
  induction n generalizing root ts with
  | zero =>
    cases h
    exact ⟨List.suffix_refl _, Nat.le_refl _⟩
  | succ n ih =>
    rw [run_succ] at h
    cases hadv : (inProgress root ts).advance build with
    | inProgress root₁ rest₁ =>
      rw [hadv] at h
      obtain ⟨hsuffix, hlength⟩ := ih h
      have hfirst := length_advance hadv
      exact ⟨hsuffix.trans (suffix_advance hadv), by omega⟩
    | done tree =>
      rw [hadv, run_of_isTerminal build n rfl] at h
      cases h
    | failed err =>
      rw [hadv, run_of_isTerminal build n rfl] at h
      cases h

end Steps

/-- Steps one after another are a run outside all groups. -/
theorem iterate_step (n : Nat) (s : BuildState) : step^[n] s = s.run (buildWithin maxDepth) n := by
  induction n generalizing s with
  | zero => rfl
  | succ n ih => rw [Function.iterate_succ_apply, ih, run_succ, step]

/-! ## The bound on the steps of a build -/

/-- The result of a state, where `unfinished` is that of a build that has not ended. -/
def BuildState.resultOr (unfinished : Except ParseError Expr) : BuildState → Except ParseError Expr
  | done tree => .ok tree
  | failed e => .error e
  | inProgress .. => unfinished

/-- A build in which `unfinished` stands for a build that has not ended within its steps, here and in all groups. -/
def buildOr (unfinished : Except ParseError Expr) : (levels : Nat) → List Token → Except ParseError Expr
  | 0, _ => .error .nestedTooDeeply
  | levels + 1, tokens =>
    ((BuildState.start tokens).run (buildOr unfinished levels) (tokens.length + 1)).resultOr unfinished

theorem resultOr_of_isTerminal (unfinished : Except ParseError Expr) {s : BuildState} (h : s.isTerminal = true) :
    s.resultOr unfinished = s.result := by
  cases s with
  | inProgress root tokens => cases h
  | done tree => rfl
  | failed e => rfl

/-- The steps given to a build are enough. -/
theorem isTerminal_build (levels : Nat) (ts : List Token) :
    ((start ts).run (buildWithin levels) (ts.length + 1)).isTerminal = true :=
  isTerminal_run (by omega)

/-- No build is left unfinished, so it does not matter what would come of one. -/
theorem buildOr_eq (unfinished : Except ParseError Expr) (levels : Nat) :
    buildOr unfinished levels = buildWithin levels := by
  induction levels with
  | zero => rfl
  | succ levels ih =>
    funext ts
    rw [buildOr, ih, resultOr_of_isTerminal unfinished (isTerminal_build levels ts), buildWithin]

/-! ## The main statement -/

/-- Steps from the start that have ended have ended with the result of the build. -/
theorem build_eq_result {n : Nat} (h : (step^[n] (start ts)).isTerminal = true) :
    build ts = (step^[n] (start ts)).result := by
  rw [iterate_step] at h ⊢
  exact buildWithin_eq_of_leads h ⟨n, rfl⟩

theorem BuildState.eq_iff_result {s : BuildState} (h : s.isTerminal = true) :
    (∀ tree, s = .done tree ↔ s.result = .ok tree) ∧ ∀ err, s = .failed err ↔ s.result = .error err := by
  cases s with
  | inProgress root tokens => cases h
  | done tree => simp [result]
  | failed e => simp [result]

/-- What holds of stepping through tokens, and of building them. -/
structure StepsEnd (ts : List Token) : Prop where
  /-- A step that stays in progress leaves a suffix, shorter by two or more, whatever the tree so far. -/
  step (root root' : Option PartialTree) (rest : List Token) : (inProgress root ts).step = .inProgress root' rest →
    rest <:+ ts ∧ rest.length + 2 ≤ ts.length
  /-- So do several, each with two more. -/
  steps (root root' : Option PartialTree) (rest : List Token) (n : Nat) :
    BuildState.step^[n] (inProgress root ts) = .inProgress root' rest → rest <:+ ts ∧ rest.length + 2 * n ≤ ts.length
  ends (root : Option PartialTree) : ∃ n ≤ ts.length / 2 + 1, (BuildState.step^[n] (inProgress root ts)).isTerminal = true
  stays (s : BuildState) : s.isTerminal = true → s.step = s
  /-- The end of the steps from the start is the result of the build. -/
  agrees (n : Nat) : (BuildState.step^[n] (start ts)).isTerminal = true →
    (∀ tree, BuildState.step^[n] (start ts) = .done tree ↔ build ts = .ok tree) ∧
      ∀ err, BuildState.step^[n] (start ts) = .failed err ↔ build ts = .error err
  /-- The bound on the steps of a build is enough, on every level. -/
  enough (levels : Nat) : ((start ts).run (buildWithin levels) (ts.length + 1)).isTerminal = true
  /-- What would come of an unfinished build decides nothing, not in groups either. -/
  unfinished (result : Except ParseError Expr) (levels : Nat) : buildOr result levels ts = buildWithin levels ts

/-- Stepping through tokens ends, after half as many steps as there are tokens and one more at the latest, and from the start
it ends as the build does, which never runs out of steps. -/
theorem steps_end_as_build (ts : List Token) : StepsEnd ts where
  step root root' rest h := ⟨suffix_advance h, length_advance h⟩
  steps root root' rest n h := by
    rw [iterate_step] at h
    exact suffix_run h
  ends root := by
    refine ⟨ts.length / 2 + 1, Nat.le_refl _, ?_⟩
    rw [iterate_step]
    exact isTerminal_run (by omega)
  stays s h := advance_of_isTerminal _ h
  agrees n h := by
    rw [build_eq_result h]
    exact eq_iff_result h
  enough levels := isTerminal_build levels ts
  unfinished result levels := by rw [buildOr_eq]

end Calculator
