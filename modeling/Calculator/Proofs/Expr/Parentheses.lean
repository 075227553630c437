import Calculator.Proofs.Expr.Blame
/-!
# Balanced tokens are never blamed on their parentheses

A build reads operands and operators off its tokens, each of which closes as many groups as it opens, so what is left of
balanced tokens is balanced: it never begins with a closing parenthesis, and the groups it opens are closed. What a group
hands on to be built is cut out at its closing parenthesis, so it is balanced whatever the tokens around it are, and the
errors of stray parentheses are raised outside all groups or nowhere.

Main statement: `parentheses_blamed_outside`.
-/

namespace Calculator

open BuildState

variable {root : Option PartialTree} {ts us : List Token} {err : ParseError}

/-- The errors that blame a parenthesis: it is never closed, or it closes nothing. -/
def parenthesisErrors : List ParseError :=
  [.unmatchedParenthesis, .unexpectedToken .rightParen, .invalidAfterUnaryMinus .rightParen]

/-! ## What is handed on to be built -/

/-- What a step hands on to be built: the tokens of the group that its operand is. -/
inductive HandsOn : List Token → List Token → Prop where
  | group {ts : List Token} {close : Nat} (closes : matchingClose? ts = some close) (filled : close ≠ 0) :
      HandsOn (.leftParen :: ts) (ts.take close)
  | minusGroup {ts : List Token} {close : Nat} (closes : matchingClose? ts = some close) (filled : close ≠ 0) :
      HandsOn (.minus :: .leftParen :: ts) (ts.take close)

theorem take_ne_nil {close : Nat} (closes : matchingClose? ts = some close) (filled : close ≠ 0) : ts.take close ≠ [] := by
  have hlt := matchingClose?_lt closes
  rw [← List.length_pos_iff, List.length_take]
  omega

theorem HandsOn.ne_nil (h : HandsOn ts us) : us ≠ [] := by
  cases h with
  | group closes filled | minusGroup closes filled => exact take_ne_nil closes filled

theorem HandsOn.balanced (h : HandsOn ts us) : Balanced us := by
  cases h with
  | group closes | minusGroup closes => exact balanced_take_of_matchingClose? closes

section Steps

variable {build build' : GroupBuilder}

theorem readGroup_of_unclosed (h : matchingClose? ts = none) : readGroup build ts = .error .unmatchedParenthesis := by
  unfold readGroup
  rw [h]

theorem readGroup_of_empty (h : matchingClose? ts = some 0) : readGroup build ts = .error .emptyParenthesis := by
  unfold readGroup
  rw [h]
  rfl

theorem readGroup_of_closes {close : Nat} (closes : matchingClose? ts = some close) (filled : close ≠ 0) :
    readGroup build ts = (build (ts.take close)).map fun inner => (inner, ts.drop (close + 1)) := by
  obtain ⟨n, rfl⟩ := Nat.exists_eq_succ_of_ne_zero filled
  unfold readGroup
  rw [closes]
  simp only
  cases build (ts.take n.succ) <;> rfl

theorem readGroup_congr
    (h : ∀ close, matchingClose? ts = some close → close ≠ 0 → build (ts.take close) = build' (ts.take close)) :
    readGroup build ts = readGroup build' ts := by
  cases hclose : matchingClose? ts with
  | none => rw [readGroup_of_unclosed hclose, readGroup_of_unclosed hclose]
  | some close =>
    by_cases hfilled : close = 0
    · rw [hfilled] at hclose
      rw [readGroup_of_empty hclose, readGroup_of_empty hclose]
    · rw [readGroup_of_closes hclose hfilled, readGroup_of_closes hclose hfilled, h close hclose hfilled]

/-- A step asks for nothing but what it hands on. -/
theorem advance_congr (h : ∀ us, HandsOn ts us → build us = build' us) :
    (inProgress root ts).advance build = (inProgress root ts).advance build' := by
  have hread : readOperand build root ts = readOperand build' root ts := by
    unfold readOperand
    split
    · rfl
    · rfl
    · next tail => rw [readGroup_congr fun close closes filled => h _ (.minusGroup closes filled)]
    · rfl
    · rfl
    · rfl
    · next tail => rw [readGroup_congr fun close closes filled => h _ (.group closes filled)]
    · rfl
  rw [advance, hread, advance]

/-- It fails if that cannot be built. -/
theorem advance_of_handsOn (h : HandsOn ts us) (herr : build us = .error err) :
    (inProgress root ts).advance build = .failed err := by
  cases h with
  | group closes filled | minusGroup closes filled =>
    rw [advance, readOperand, readGroup_of_closes closes filled, herr]
    rfl

/-- A run that fails does so in one of its steps. -/
theorem exists_failing_step {n : Nat} {s : BuildState} (hs : s ≠ .failed err) (h : s.run build n = .failed err) :
    ∃ root rest, Leads build s (.inProgress root rest) ∧ (inProgress root rest).advance build = .failed err := by
  induction n generalizing s with
  | zero => exact absurd h hs
  | succ n ih =>
    rw [run_succ] at h
    by_cases hadv : s.advance build = .failed err
    · cases s with
      | inProgress root rest => exact ⟨root, rest, ⟨0, rfl⟩, hadv⟩
      | done tree => cases hadv
      | failed e => exact absurd hadv hs
    · obtain ⟨root, rest, hleads, hfails⟩ := ih hadv h
      exact ⟨root, rest, (leads_advance s).trans hleads, hfails⟩

end Steps

/-! ## Builds of balanced tokens -/

/-- A token out of place that is no closing parenthesis is another error. -/
theorem blame_not_mem_parenthesisErrors {t : Token} (h : t ≠ .rightParen) (x : Expected) :
    x.blame t ∉ parenthesisErrors := by
  cases x <;> simp [Expected.blame, parenthesisErrors, h]

/-- Balanced tokens may fail to build, but not for their parentheses. -/
theorem not_mem_parenthesisErrors {levels : Nat} (hbalanced : Balanced ts) (h : buildWithin levels ts = .error err) :
    err ∉ parenthesisErrors := by
  induction levels generalizing ts err with
  | zero =>
    cases h
    simp [parenthesisErrors]
  | succ levels ih =>
    obtain ⟨us, x, tail, rfl, hus, hstuck⟩ := exists_stuck h
    -- as many groups are closed as are opened before the place of the error
    have hcount := opened_of_reads (hus.reads 0)
    have htail : Balanced tail := hbalanced.of_append (by simpa using hcount.symm)
    cases hstuck with
    | ended => simp [parenthesisErrors]
    | token => exact blame_not_mem_parenthesisErrors htail.ne_rightParen x
    | @group rest err _ fails =>
      obtain ⟨close, hclose⟩ := htail.exists_close
      by_cases hfilled : close = 0
      · rw [hfilled] at hclose
        rw [readGroup_of_empty hclose] at fails
        cases fails
        simp [parenthesisErrors]
      · rw [readGroup_of_closes hclose hfilled] at fails
        refine ih (balanced_take_of_matchingClose? hclose) ?_
        cases hinner : buildWithin levels (rest.take close) with
        | ok e =>
          rw [hinner] at fails
          cases fails
        | error e =>
          rw [hinner] at fails
          cases fails
          rfl

/-! ## The main statement -/

/-- The slices of the tokens that come to be built with so many levels left, when the tokens themselves are built with
`levels`: what the steps of a build hand on, and what the builds of that hand on in turn. -/
inductive Nested (levels : Nat) (ts : List Token) : (left : Nat) → List Token → Prop where
  | outermost {left : Nat} {root : Option PartialTree} {rest us : List Token} (enough : levels = left + 1)
      (comes : Leads (buildWithin left) (.start ts) (.inProgress root rest)) (hands : HandsOn rest us) :
      Nested levels ts left us
  | inner {left : Nat} {root : Option PartialTree} {us rest vs : List Token} (outer : Nested levels ts (left + 1) us)
      (comes : Leads (buildWithin left) (.start us) (.inProgress root rest)) (hands : HandsOn rest vs) :
      Nested levels ts left vs

theorem Nested.exists_handsOn {levels left : Nat} (h : Nested levels ts left us) : ∃ rest, HandsOn rest us := by
  cases h with
  | outermost _ _ hands => exact ⟨_, hands⟩
  | inner _ _ hands => exact ⟨_, hands⟩

/-- Balanced tokens are never blamed on their parentheses, whatever else is wrong with them. The slices that come to be built
inside groups are balanced and not empty, for any tokens, and a step asks for the trees of such slices only. So a
parenthesis is blamed by a step outside all groups, and by none whose group cannot be built. -/
theorem parentheses_blamed_outside (ts : List Token) :
    (Balanced ts → ∀ err ∈ parenthesisErrors, build ts ≠ .error err) ∧
    (∀ left us, Nested (maxDepth + 1) ts left us →
      us ≠ [] ∧ Balanced us ∧ ∀ err ∈ parenthesisErrors, buildWithin left us ≠ .error err) ∧
    (∀ (root : Option PartialTree) (build build' : GroupBuilder),
      (∀ us, us ≠ [] → Balanced us → build us = build' us) →
      (inProgress root ts).advance build = (inProgress root ts).advance build') ∧
    (∀ err ∈ parenthesisErrors, build ts = .error err →
      ∃ root rest, Leads (buildWithin maxDepth) (.start ts) (.inProgress root rest) ∧
        (inProgress root rest).step = .failed err ∧ ∀ us, HandsOn rest us → ∃ tree, buildWithin maxDepth us = .ok tree) := by
  refine ⟨?_, ?_, ?_, ?_⟩
  · intro hbalanced err herr h
    exact not_mem_parenthesisErrors hbalanced h herr
  · intro left us hnested
    obtain ⟨rest, hhands⟩ := hnested.exists_handsOn
    exact ⟨hhands.ne_nil, hhands.balanced, fun err herr h => not_mem_parenthesisErrors hhands.balanced h herr⟩
  · intro root build build' hsame
    exact advance_congr fun us hhands => hsame us hhands.ne_nil hhands.balanced
  · intro err herr h
    obtain ⟨root, rest, hleads, hfails⟩ := exists_failing_step (by simp [start]) (run_eq_failed h)
    refine ⟨root, rest, hleads, hfails, fun us hhands => ?_⟩
    cases hbuilt : buildWithin maxDepth us with
    | ok tree => exact ⟨tree, rfl⟩
    | error e =>
      -- an error of the group would be the error of the step
      obtain rfl : e = err := BuildState.failed.inj ((advance_of_handsOn hhands hbuilt).symm.trans hfails)
      exact absurd herr (not_mem_parenthesisErrors hhands.balanced hbuilt)

/-- `(1(2))` is balanced and has another fault. In `(1))` the parenthesis out of place stands behind a group that is built of
one number; a builder of groups that refuses to build nothing makes the same step there. -/
theorem blamed_outside_behind_group :
    (Balanced [.leftParen, .number 1, .leftParen, .number 2, .rightParen, .rightParen] ∧
      build [.leftParen, .number 1, .leftParen, .number 2, .rightParen, .rightParen] = .error (.unexpectedToken .leftParen) ∧
      ∀ err ∈ parenthesisErrors,
        build [.leftParen, .number 1, .leftParen, .number 2, .rightParen, .rightParen] ≠ .error err) ∧
    (Nested (maxDepth + 1) [.leftParen, .number 1, .rightParen, .rightParen] maxDepth [.number 1] ∧ Balanced [.number 1]) ∧
    (inProgress none [.leftParen, .number 1, .rightParen, .rightParen]).advance (buildWithin 1) =
      (inProgress none [.leftParen, .number 1, .rightParen, .rightParen]).advance
        (fun us => if us = [] then .error .unexpectedEnd else buildWithin 1 us) ∧
    (ParseError.unexpectedToken .rightParen ∈ parenthesisErrors ∧
      build [.leftParen, .number 1, .rightParen, .rightParen] = .error (.unexpectedToken .rightParen) ∧
      ∃ root rest, Leads (buildWithin maxDepth) (.start [.leftParen, .number 1, .rightParen, .rightParen])
          (.inProgress root rest) ∧
        (inProgress root rest).step = .failed (.unexpectedToken .rightParen) ∧
        ∀ us, HandsOn rest us → ∃ tree, buildWithin maxDepth us = .ok tree) := by
  obtain ⟨hbalanced, -, -, -⟩ := parentheses_blamed_outside
    [.leftParen, .number 1, .leftParen, .number 2, .rightParen, .rightParen]
  obtain ⟨-, hnested, hstep, hblamed⟩ := parentheses_blamed_outside [.leftParen, .number 1, .rightParen, .rightParen]
  have hgroup : Nested (maxDepth + 1) [.leftParen, .number 1, .rightParen, .rightParen] maxDepth [.number 1] :=
    .outermost rfl ⟨0, rfl⟩ (@HandsOn.group _ 1 rfl (by decide))
  have hsame (us : List Token) (hne : us ≠ []) (_ : Balanced us) :
      buildWithin 1 us = if us = [] then .error .unexpectedEnd else buildWithin 1 us := (if_neg hne).symm
  exact ⟨⟨by decide, rfl, hbalanced (by decide)⟩, ⟨hgroup, (hnested _ _ hgroup).2.1⟩, hstep _ _ _ hsame, by decide, rfl,
    hblamed _ (by decide) rfl⟩

end Calculator
