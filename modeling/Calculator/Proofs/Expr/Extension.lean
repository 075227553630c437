import Calculator.Proofs.Expr.Parsing
/-!
# More tokens at the end

A step decides by the tokens that it has looked at, so tokens added at the end change nothing before the end is
reached: a closing parenthesis that was found is the one that is found (`closeFrom_append`), an operand that was read is
read again, and a token out of place stays out of place. Two steps alone look at the end itself, where nothing or a lone
minus is left of the tokens (`Lacking`): these lack an operand, and any number will do.

A group that ends too soon is no such case. Its tokens are cut out at its closing parenthesis, which is found with more
tokens too, and so they lack an operand for good.

Main statement: `build_append_of_error`.
-/

namespace Calculator

open BuildState

variable {root : Option PartialTree} {ts : List Token} {err : ParseError}

section Steps

variable {build : GroupBuilder}

/-! ## Groups -/

theorem readGroup_append {i : Nat} (h : matchingClose? ts = some i) (us : List Token) :
    readGroup build (ts ++ us) = (readGroup build ts).map fun (e, rest) => (e, rest ++ us) := by
  have hlt := matchingClose?_lt h
  have happend : matchingClose? (ts ++ us) = some i := closeFrom_append h us
  unfold readGroup
  rw [h, happend]
  cases i with
  | zero => rfl
  | succ i =>
    simp only
    rw [List.take_append_of_le_length (by omega), List.drop_append_of_le_length (by omega)]
    cases build (ts.take (i + 1)) <;> rfl

/-- A group is read as before, and what follows it goes on with the tokens added, unless it is never closed. -/
theorem map_readGroup_append (wrap : Expr → Expr) (us : List Token) :
    ((readGroup build ts).map fun (inner, rest) => (wrap inner, rest)) = .error .unmatchedParenthesis ∨
      ((readGroup build (ts ++ us)).map fun (inner, rest) => (wrap inner, rest)) =
        ((readGroup build ts).map fun (inner, rest) => (wrap inner, rest)).map fun (e, rest) => (e, rest ++ us) := by
  cases hclose : matchingClose? ts with
  | none =>
    left
    unfold readGroup
    rw [hclose]
    rfl
  | some i =>
    right
    rw [readGroup_append hclose]
    cases readGroup build ts <;> rfl

/-! ## One step -/

/-- The tokens lack an operand, or all of it but its minus. -/
def Lacking (ts : List Token) : Prop := ts = [] ∨ ts = [.minus]

theorem firstOperand_append (hts : ¬ Lacking ts) (hmatched : firstOperand build ts ≠ .error .unmatchedParenthesis)
    (us : List Token) :
    firstOperand build (ts ++ us) = (firstOperand build ts).map fun (e, rest) => (e, rest ++ us) := by
  unfold firstOperand at hmatched ⊢
  rcases ts with _ | ⟨t, ts⟩
  · exact absurd (.inl rfl) hts
  cases t with
  | number x | plus | multiply | divide | rightParen => rfl
  | leftParen => exact (map_readGroup_append .group us).resolve_left hmatched
  | minus =>
    rcases ts with _ | ⟨t, ts⟩
    · exact absurd (.inr rfl) hts
    cases t with
    | number x | plus | minus | multiply | divide | rightParen => rfl
    | leftParen => exact (map_readGroup_append .negated us).resolve_left hmatched

/-- The state with tokens added to those still to come. -/
def BuildState.extend (us : List Token) : BuildState → BuildState
  | inProgress root rest => inProgress root (rest ++ us)
  | done tree => done tree
  | failed e => failed e

theorem advance_of_operand {e : Expr} {rest : List Token} (hts : ts ≠ []) (h : firstOperand build ts = .ok (e, rest)) :
    (inProgress root ts).advance build = taken root e rest := by
  rw [advance, readOperand_eq (.inr hts), h]
  rfl

theorem advance_of_no_operand (hts : ts ≠ []) (h : firstOperand build ts = .error err) :
    (inProgress root ts).advance build = failed err := by
  rw [advance, readOperand_eq (.inr hts), h]
  rfl

/-- What is made of an operand is decided by the next token, if there is one. -/
theorem taken_append {e : Expr} {rest : List Token} (hdone : ∀ tree, taken root e rest ≠ done tree) (us : List Token) :
    taken root e (rest ++ us) = (taken root e rest).extend us := by
  obtain rfl | ⟨op, tail, rfl⟩ | ⟨t, tail, ht, rfl⟩ := rest_cases rest
  · rw [taken, takeOperand_nil] at hdone
    exact absurd rfl (hdone _)
  · rw [List.cons_append, taken_ofOperator, taken_ofOperator]
    rfl
  · rw [List.cons_append, taken, takeOperand_of_none root e ht, taken, takeOperand_of_none root e ht]
    rfl

/-- A step that does not come to the end of the tokens does the same with more of them. -/
theorem advance_append (hts : ¬ Lacking ts) (hdone : ∀ tree, (inProgress root ts).advance build ≠ done tree)
    (hmatched : (inProgress root ts).advance build ≠ failed .unmatchedParenthesis) (us : List Token) :
    (inProgress root (ts ++ us)).advance build = ((inProgress root ts).advance build).extend us := by
  have hne : ts ≠ [] := fun hnil => hts (.inl hnil)
  have hne' : ts ++ us ≠ [] := List.append_ne_nil_of_left_ne_nil hne us
  have hfirst : firstOperand build ts ≠ .error .unmatchedParenthesis :=
    fun hfirst => hmatched (advance_of_no_operand hne hfirst)
  have happend := firstOperand_append hts hfirst us
  cases hoperand : firstOperand build ts with
  | error e =>
    rw [hoperand] at happend
    rw [advance_of_no_operand hne' happend, advance_of_no_operand hne hoperand]
    rfl
  | ok p =>
    obtain ⟨e, rest⟩ := p
    rw [hoperand] at happend
    have hadv : (inProgress root ts).advance build = taken root e rest := advance_of_operand hne hoperand
    rw [advance_of_operand hne' happend, hadv]
    exact taken_append (fun tree htaken => hdone tree (hadv.trans htaken)) us

/-- Tokens that lack an operand end a build in progress. -/
theorem advance_of_lacking (hts : Lacking ts) :
    (inProgress root ts).advance build = failed .unexpectedEnd ∨
      ∃ tree, (inProgress root ts).advance build = done tree := by
  rcases hts with rfl | rfl
  · cases root with
    | none => exact .inr ⟨_, rfl⟩
    | some p => exact .inl rfl
  · exact .inl rfl

/-- A number is what they lack. -/
theorem advance_lacking_number (hts : Lacking ts) (x : Float) :
    ∃ tree, (inProgress root (ts ++ [.number x])).advance build = done tree := by
  rcases hts with rfl | rfl <;> cases root <;> exact ⟨_, rfl⟩

/-! ## Runs -/

/-- A run that fails does so for lack of an operand at the end of the tokens, which it comes to also with more tokens, or it
fails with more tokens too. -/
theorem leads_append_of_run {n : Nat} (h : (inProgress root ts).run build n = failed err)
    (hmatched : err ≠ .unmatchedParenthesis) :
    (err = .unexpectedEnd ∧ ∃ root' rest, Lacking rest ∧
        ∀ us, Leads build (inProgress root (ts ++ us)) (inProgress root' (rest ++ us))) ∨
      ∀ us, Leads build (inProgress root (ts ++ us)) (failed err) := by
  induction n generalizing root ts with
  | zero => cases h
  | succ n ih =>
    rw [run_succ] at h
    by_cases hts : Lacking ts
    · left
      rcases advance_of_lacking hts with hadv | ⟨tree, hadv⟩ <;> rw [hadv, run_of_isTerminal build n rfl] at h
      · cases h
        exact ⟨rfl, root, ts, hts, fun us => ⟨0, rfl⟩⟩
      · cases h
    have hdone : ∀ tree, (inProgress root ts).advance build ≠ done tree := by
      intro tree hadv
      rw [hadv, run_of_isTerminal build n rfl] at h
      cases h
    have hfails : (inProgress root ts).advance build ≠ failed .unmatchedParenthesis := by
      intro hadv
      rw [hadv, run_of_isTerminal build n rfl] at h
      cases h
      exact hmatched rfl
    have hstep (us : List Token) : Leads build (inProgress root (ts ++ us)) _ := leads_advance _
    simp only [advance_append hts hdone hfails] at hstep
    cases hadv : (inProgress root ts).advance build with
    | done tree => exact absurd hadv (hdone tree)
    | failed e =>
      rw [hadv, run_of_isTerminal build n rfl] at h
      cases h
      rw [hadv] at hstep
      exact .inr hstep
    | inProgress root₁ rest₁ =>
      rw [hadv] at h hstep
      obtain ⟨hend, root', rest, hrest, hleads⟩ | hleads := ih h
      · exact .inl ⟨hend, root', rest, hrest, fun us => (hstep us).trans (hleads us)⟩
      · exact .inr fun us => (hstep us).trans (hleads us)

end Steps

/-- A build that fails with all its groups closed lacks a last number, or no more tokens will help. -/
theorem build_append_cases (h : build ts = .error err) (hmatched : err ≠ .unmatchedParenthesis) :
    (err = .unexpectedEnd ∧ ∀ x, ∃ tree, build (ts ++ [.number x]) = .ok tree) ∨
      ∀ us, build (ts ++ us) = .error err := by
  obtain ⟨hend, root', rest, hrest, hleads⟩ | hleads := leads_append_of_run (run_eq_failed h) hmatched
  · refine .inl ⟨hend, fun x => ?_⟩
    have hnumber : ∃ tree, (inProgress root' (rest ++ [.number x])).advance (buildWithin maxDepth) = done tree :=
      advance_lacking_number hrest x
    obtain ⟨tree, hadv⟩ := hnumber
    have hlast : Leads (buildWithin maxDepth) _ (done tree) := hadv ▸ leads_advance _
    exact ⟨tree, buildWithin_eq_of_leads rfl ((hleads [.number x]).trans hlast)⟩
  · exact .inr fun us => buildWithin_eq_of_leads rfl (hleads us)

/-! ## The main statement -/

/-- Failures are final unless the input merely ended too soon. A token out of place, an empty group or too many groups inside
one another are the same error whatever tokens are added. Tokens that lack an operand lack it for good, in a group that
ends too soon, or else any number completes them, and never both. -/
theorem build_append_of_error (ts : List Token) :
    (∀ err, err ≠ .unexpectedEnd → err ≠ .unmatchedParenthesis → build ts = .error err →
      ∀ us, build (ts ++ us) = .error err) ∧
    (build ts = .error .unexpectedEnd →
      ((∀ us, build (ts ++ us) = .error .unexpectedEnd) ∨ ∀ x, ∃ tree, build (ts ++ [.number x]) = .ok tree) ∧
      ¬ ((∀ us, build (ts ++ us) = .error .unexpectedEnd) ∧ ∀ x, ∃ tree, build (ts ++ [.number x]) = .ok tree)) := by
  refine ⟨?_, ?_⟩
  · intro err hended hmatched h
    obtain ⟨hend, -⟩ | hfinal := build_append_cases h hmatched
    · exact absurd hend hended
    · exact hfinal
  · intro h
    constructor
    · obtain ⟨-, hnumber⟩ | hfinal := build_append_cases h (by simp)
      · exact .inr hnumber
      · exact .inl hfinal
    · rintro ⟨hfinal, hnumber⟩
      obtain ⟨tree, hok⟩ := hnumber 0
      rw [hfinal] at hok
      cases hok

/-- In `2 * (1 +)` a group ends too soon, `2 * -` lacks its last number only, and in `2 * (-*` the second sign is out of
place, if the group is closed. -/
theorem build_append_three_failures :
    (build [.number 2, .multiply, .leftParen, .number 1, .plus, .rightParen] = .error .unexpectedEnd ∧
      ¬ ∀ x, ∃ tree, build ([.number 2, .multiply, .leftParen, .number 1, .plus, .rightParen] ++ [.number x]) = .ok tree) ∧
    (build [.number 2, .multiply, .minus] = .error .unexpectedEnd ∧
      ∀ x, ∃ tree, build ([.number 2, .multiply, .minus] ++ [.number x]) = .ok tree) ∧
    build [.number 2, .multiply, .leftParen, .minus, .multiply, .rightParen] = .error (.invalidAfterUnaryMinus .multiply) ∧
      ∀ us, build ([.number 2, .multiply, .leftParen, .minus, .multiply, .rightParen] ++ us) =
        .error (.invalidAfterUnaryMinus .multiply) := by
  have hgroup : build [.number 2, .multiply, .leftParen, .number 1, .plus, .rightParen] = .error .unexpectedEnd := rfl
  have hminus : build [.number 2, .multiply, .minus] = .error .unexpectedEnd := rfl
  have hsign : build [.number 2, .multiply, .leftParen, .minus, .multiply, .rightParen] =
      .error (.invalidAfterUnaryMinus .multiply) := rfl
  refine ⟨⟨hgroup, ?_⟩, ⟨hminus, ?_⟩, hsign, (build_append_of_error _).1 _ (by simp) (by simp) hsign⟩
  · intro hnumber
    obtain ⟨tree, hok⟩ := hnumber 0
    cases hok
  · refine ((build_append_of_error _).2 hminus).1.resolve_left ?_
    intro hfinal
    cases hfinal [.number 0]

end Calculator
