import Calculator.Expr.Build
import Calculator.Proofs.Token.Matching
/-!
# The steps of a build

A step reads an operand off the tokens, without looking at the tree, and then takes it into the
tree. `advance_cases` sums up all that a step can do, so later proofs never look at the code of a step
again. From it: every step that goes on takes two tokens or more, so a build of n tokens has ended after
n / 2 + 1 steps (`isTerminal_run`), and two runs that have both ended have ended alike (`run_unique`).
-/

namespace Calculator

variable {build : GroupBuilder}

/-! ## Reading an operand -/

/-- The operand that the tokens start with, and the tokens after it. -/
def firstOperand (build : GroupBuilder) : List Token → Except ParseError (Expr × List Token)
  | [] => .error .unexpectedEnd
  | .minus :: .number x :: rest => .ok (.number (-x), rest)
  | .minus :: .leftParen :: rest => (readGroup build rest).map fun (inner, rest) => (.negated inner, rest)
  | .minus :: t :: _ => .error (.invalidAfterUnaryMinus t)
  | [.minus] => .error .unexpectedEnd
  | .number x :: rest => .ok (.number x, rest)
  | .leftParen :: rest => (readGroup build rest).map fun (inner, rest) => (.group inner, rest)
  | t :: _ => .error (.unexpectedToken t)

/-- The tokens are an operand, whose group, if it is one, `build` can build. -/
inductive OperandTokens (build : GroupBuilder) : List Token → Expr → Prop where
  | number (x : Float) : OperandTokens build [.number x] (.number x)
  | minusNumber (x : Float) : OperandTokens build [.minus, .number x] (.number (-x))
  | group {ts : List Token} {e : Expr} (filled : ts ≠ []) (built : build ts = .ok e) :
      OperandTokens build (.leftParen :: ts ++ [.rightParen]) (.group e)
  | minusGroup {ts : List Token} {e : Expr} (filled : ts ≠ []) (built : build ts = .ok e) :
      OperandTokens build (.minus :: .leftParen :: ts ++ [.rightParen]) (.negated e)

theorem OperandTokens.length_pos {us : List Token} {e : Expr} (h : OperandTokens build us e) : 0 < us.length := by
  cases h <;> simp

theorem readGroup_eq_ok {ts rest : List Token} {e : Expr} (h : readGroup build ts = .ok (e, rest)) :
    ∃ inner, inner ≠ [] ∧ ts = inner ++ .rightParen :: rest ∧ build inner = .ok e := by
  unfold readGroup at h
  split at h
  · cases h
  · cases h
  · next close hne hclose =>
    have hlt := matchingClose?_lt hclose
    have hsplit := matchingClose?_eq_some hclose
    split at h
    · next inner hinner =>
      simp only [Except.ok.injEq, Prod.mk.injEq] at h
      obtain ⟨rfl, rfl⟩ := h
      refine ⟨ts.take close, ?_, hsplit, hinner⟩
      intro hnil
      have := congrArg List.length hnil
      simp only [List.length_take, List.length_nil] at this
      exact hne (by omega)
    · cases h

/-- The same for a group that is wrapped up as an operand. -/
theorem map_readGroup_eq_ok {ts rest : List Token} {e : Expr} {wrap : Expr → Expr}
    (h : ((readGroup build ts).map fun (inner, rest) => (wrap inner, rest)) = .ok (e, rest)) :
    ∃ us inner, us ≠ [] ∧ ts = us ++ .rightParen :: rest ∧ build us = .ok inner ∧ e = wrap inner := by
  cases hgroup : readGroup build ts with
  | error err =>
    rw [hgroup] at h
    cases h
  | ok p =>
    obtain ⟨inner, after⟩ := p
    rw [hgroup] at h
    obtain ⟨rfl, rfl⟩ := Prod.mk.inj (Except.ok.inj h)
    obtain ⟨us, hfilled, hts, hbuilt⟩ := readGroup_eq_ok hgroup
    exact ⟨us, inner, hfilled, hts, hbuilt, rfl⟩

theorem firstOperand_eq_ok {ts rest : List Token} {e : Expr} (h : firstOperand build ts = .ok (e, rest)) :
    ∃ us, OperandTokens build us e ∧ ts = us ++ rest := by
  unfold firstOperand at h
  split at h
  · cases h
  · next x tail => cases h; exact ⟨_, .minusNumber x, rfl⟩
  · next tail =>
    obtain ⟨us, inner, hfilled, rfl, hbuilt, rfl⟩ := map_readGroup_eq_ok h
    exact ⟨_, .minusGroup hfilled hbuilt, by simp⟩
  · cases h
  · cases h
  · next x tail => cases h; exact ⟨_, .number x, rfl⟩
  · next tail =>
    obtain ⟨us, inner, hfilled, rfl, hbuilt, rfl⟩ := map_readGroup_eq_ok h
    exact ⟨_, .group hfilled hbuilt, by simp⟩
  · cases h

/-! ## Taking it into the tree -/

def completeWith (root : Option PartialTree) (operand : Expr) : Expr :=
  match root with
  | none => operand
  | some p => p.complete operand

/-- The tree that goes on after an operand and an operator. -/
def mergeWith (root : Option PartialTree) (operand : Expr) (op : Operator) : PartialTree :=
  match root with
  | none => .start operand op
  | some p => p.merge operand op

theorem takeOperand_nil (root : Option PartialTree) (e : Expr) :
    takeOperand root e [] = .ok (.done (completeWith root e)) := by
  cases root <;> rfl

theorem operator?_ofOperator (op : Operator) : (Token.ofOperator op).operator? = some op :=
  Token.operator?_eq_some_iff.2 rfl

theorem takeOperand_ofOperator (root : Option PartialTree) (e : Expr) (op : Operator) (rest : List Token) :
    takeOperand root e (.ofOperator op :: rest) = .ok (.inProgress (some (mergeWith root e op)) rest) := by
  cases root <;> simp only [takeOperand, operator?_ofOperator, mergeWith]

theorem takeOperand_of_none (root : Option PartialTree) (e : Expr) {t : Token} (h : t.operator? = none)
    (rest : List Token) : takeOperand root e (t :: rest) = .error (.unexpectedToken t) := by
  simp only [takeOperand, h]

/-- What follows an operand: nothing, an operator, or a token that must not. -/
theorem rest_cases (rest : List Token) :
    rest = [] ∨ (∃ op tail, rest = .ofOperator op :: tail) ∨ ∃ t tail, t.operator? = none ∧ rest = t :: tail := by
  rcases rest with _ | ⟨t, tail⟩
  · exact .inl rfl
  · cases h : t.operator? with
    | none => exact .inr (.inr ⟨t, tail, h, rfl⟩)
    | some op => exact .inr (.inl ⟨op, tail, by rw [Token.operator?_eq_some_iff.1 h]⟩)

/-- Unless there is nothing at all, a step reads an operand and takes it. -/
theorem readOperand_eq {root : Option PartialTree} {ts : List Token} (h : root ≠ none ∨ ts ≠ []) :
    readOperand build root ts = (firstOperand build ts).bind fun (e, rest) => takeOperand root e rest := by
  unfold readOperand
  split
  · cases root with
    | none => simp at h
    | some p => rfl
  · rfl
  · next tail => simp only [firstOperand]; cases readGroup build tail <;> rfl
  · simp only [firstOperand]; rfl
  · rfl
  · rfl
  · next tail => simp only [firstOperand]; cases readGroup build tail <;> rfl
  · simp only [firstOperand]; rfl

/-! ## One step -/

/-- All that a step can do to a build in progress. -/
inductive Advance (build : GroupBuilder) (root : Option PartialTree) : List Token → BuildState → Prop where
  | nothing (fresh : root = none) : Advance build root [] (.done .slot)
  | last {us : List Token} {e : Expr} (operand : OperandTokens build us e) :
      Advance build root us (.done (completeWith root e))
  | goOn {us rest : List Token} {e : Expr} {op : Operator} (operand : OperandTokens build us e) :
      Advance build root (us ++ .ofOperator op :: rest) (.inProgress (some (mergeWith root e op)) rest)
  | noOperand {ts : List Token} {err : ParseError} (fails : firstOperand build ts = .error err) :
      Advance build root ts (.failed err)
  | noOperator {us rest : List Token} {e : Expr} {t : Token} (operand : OperandTokens build us e)
      (none : t.operator? = none) : Advance build root (us ++ t :: rest) (.failed (.unexpectedToken t))

theorem advance_cases (build : GroupBuilder) (root : Option PartialTree) (ts : List Token) :
    Advance build root ts ((BuildState.inProgress root ts).advance build) := by
  by_cases h : root ≠ none ∨ ts ≠ []
  · rw [BuildState.advance, readOperand_eq h]
    cases hfirst : firstOperand build ts with
    | error err => exact .noOperand hfirst
    | ok p =>
      obtain ⟨e, rest⟩ := p
      obtain ⟨us, hus, rfl⟩ := firstOperand_eq_ok hfirst
      simp only [Except.bind]
      obtain rfl | ⟨op, tail, rfl⟩ | ⟨t, tail, ht, rfl⟩ := rest_cases rest
      · rw [takeOperand_nil, List.append_nil]
        exact .last hus
      · rw [takeOperand_ofOperator]
        exact .goOn hus
      · rw [takeOperand_of_none root e ht]
        exact .noOperator hus ht
  -- nothing read and nothing to read
  · simp only [ne_eq, not_or, not_not] at h
    obtain ⟨rfl, rfl⟩ := h
    exact .nothing rfl

/-- A step that does not end a build takes two tokens or more. -/
theorem length_advance {root root' : Option PartialTree} {ts rest : List Token}
    (h : (BuildState.inProgress root ts).advance build = .inProgress root' rest) : rest.length + 2 ≤ ts.length := by
  have hadv := advance_cases build root ts
  rw [h] at hadv
  cases hadv with
  | goOn hus =>
    have := hus.length_pos
    simp only [List.length_append, List.length_cons]
    omega

/-! ## Runs -/

namespace BuildState

theorem run_add (m n : Nat) (s : BuildState) : s.run build (m + n) = (s.run build m).run build n := by
  induction m generalizing s with
  | zero => rw [Nat.zero_add, run]
  | succ m ih => rw [Nat.succ_add, run_succ, run_succ, ih]

/-- A build of n tokens has ended after n / 2 + 1 steps. -/
theorem isTerminal_run {n : Nat} {root : Option PartialTree} {ts : List Token} (h : ts.length < 2 * n) :
    ((inProgress root ts).run build n).isTerminal = true := by
  induction n generalizing root ts with
  | zero => omega
  | succ n ih =>
    rw [run_succ]
    cases hadv : (inProgress root ts).advance build with
    | inProgress root' rest =>
      have := length_advance hadv
      exact ih (by omega)
    | done tree => rw [run_of_isTerminal build n rfl]; rfl
    | failed e => rw [run_of_isTerminal build n rfl]; rfl

/-- Two runs that have both ended have ended alike. -/
theorem run_unique {m n : Nat} {s : BuildState} (hm : (s.run build m).isTerminal = true)
    (hn : (s.run build n).isTerminal = true) : s.run build m = s.run build n := by
  have h : s.run build (m + n) = s.run build (n + m) := by rw [Nat.add_comm]
  rwa [run_add, run_add, run_of_isTerminal build n hm, run_of_isTerminal build m hn] at h

/-- A run from the one state comes by the other. -/
def Leads (build : GroupBuilder) (s t : BuildState) : Prop := ∃ n, s.run build n = t

theorem Leads.trans {s t u : BuildState} (hst : Leads build s t) (htu : Leads build t u) : Leads build s u := by
  obtain ⟨m, rfl⟩ := hst
  obtain ⟨n, rfl⟩ := htu
  exact ⟨m + n, run_add m n s⟩

theorem leads_advance (s : BuildState) : Leads build s (s.advance build) := ⟨1, by rw [run_succ, run]⟩

end BuildState

/-- A build ends as any run does that has ended. -/
theorem buildWithin_eq_of_leads {levels : Nat} {ts : List Token} {s : BuildState} (hend : s.isTerminal = true)
    (h : BuildState.Leads (buildWithin levels) (.start ts) s) : buildWithin (levels + 1) ts = s.result := by
  obtain ⟨n, rfl⟩ := h
  have hlen : ((BuildState.start ts).run (buildWithin levels) (ts.length + 1)).isTerminal = true :=
    BuildState.isTerminal_run (by omega)
  rw [buildWithin, BuildState.run_unique hlen hend]

/-- A build that fails is a run that has failed. -/
theorem run_eq_failed {levels : Nat} {ts : List Token} {err : ParseError}
    (h : buildWithin (levels + 1) ts = .error err) :
    (BuildState.start ts).run (buildWithin levels) (ts.length + 1) = .failed err := by
  have hend : ((BuildState.start ts).run (buildWithin levels) (ts.length + 1)).isTerminal = true :=
    BuildState.isTerminal_run (by omega)
  rw [buildWithin] at h
  generalize (BuildState.start ts).run (buildWithin levels) (ts.length + 1) = s at h hend
  cases s with
  | inProgress root rest => cases hend
  | done tree => cases h
  | failed e =>
    cases h
    rfl

end Calculator
