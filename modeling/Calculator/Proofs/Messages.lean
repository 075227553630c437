import Calculator.Proofs.Calculation
import Calculator.Proofs.Number.Printing
import Calculator.Proofs.Token.Alphabet
/-!
# Messages are single lines

Every error of a calculation is told on one line, whatever the text: numbers and symbols have no line breaks, and the
characters that an error shows of a text are none of its blanks.
-/

namespace Calculator

/-- The text has no line break. -/
def SingleLine (text : String) : Prop := '\n' ∉ text.toList

instance (text : String) : Decidable (SingleLine text) := inferInstanceAs (Decidable ('\n' ∉ text.toList))

theorem SingleLine.append {text text' : String} (h : SingleLine text) (h' : SingleLine text') :
    SingleLine (text ++ text') := by
  intro hmem
  rw [String.toList_append] at hmem
  exact (List.mem_append.1 hmem).elim h h'

theorem ne_newline_of_isBlank {c : Char} (h : isBlank c = false) : c ≠ '\n' := by
  rintro rfl
  cases h

/-! ## Numbers and tokens -/

theorem singleLine_number (x : Float) : SingleLine (Number.text x) := by
  intro hmem
  rw [Number.text, String.toList_ofList] at hmem
  rcases mem_chars hmem with hdigit | hother
  · cases hdigit
  · revert hother
    decide

theorem singleLine_toString (n : Nat) : SingleLine (toString n) := by
  intro hmem
  rw [Nat.toString_eq_repr, Nat.toList_repr] at hmem
  cases Nat.isDigit_of_mem_toDigits (by decide) (by decide) hmem

theorem singleLine_token (t : Token) : SingleLine t.text := by
  cases t with
  | number x => exact singleLine_number x
  | plus | minus | multiply | divide | leftParen | rightParen => decide

theorem singleLine_operation (x : Float) (op : Operator) (y : Float) : SingleLine (operationText x op y) := by
  have hop : SingleLine op.text := by cases op <;> decide
  have hspace : SingleLine " " := by decide
  exact ((((singleLine_number x).append hspace).append hop).append hspace).append (singleLine_number y)

/-! ## Errors -/

theorem LexError.singleLine_message {text : String} {e : LexError} (h : tokenize text = .error e) :
    SingleLine e.message := by
  obtain ⟨hcharacter, hfragment⟩ := isBlank_eq_false_of_tokenize h
  have hc : SingleLine e.character.toString := by
    simpa [SingleLine] using (ne_newline_of_isBlank hcharacter).symm
  have hf : SingleLine e.fragment := fun hmem => ne_newline_of_isBlank (hfragment '\n' hmem) rfl
  have hstart : SingleLine "unexpected character '" := by decide
  have hnumeral : SingleLine " in numeral '" := by decide
  have hquote : SingleLine "'" := by decide
  unfold message
  refine ((hstart.append hc).append hquote).append ?_
  split
  · decide
  · exact (hnumeral.append hf).append hquote

theorem ParseError.singleLine_message (e : ParseError) : SingleLine e.message := by
  have hquote : SingleLine "'" := by decide
  cases e with
  | invalidAfterUnaryMinus t =>
    have hstart : SingleLine "invalid token after unary minus: '" := by decide
    exact (hstart.append (singleLine_token t)).append hquote
  | unexpectedToken t =>
    have hstart : SingleLine "unexpected token '" := by decide
    exact (hstart.append (singleLine_token t)).append hquote
  | unexpectedEnd | unmatchedParenthesis | emptyParenthesis | nestedTooDeeply => decide

theorem Expr.Fails.singleLine_message {e : Expr} {err : EvalError} (h : e.Fails err) : SingleLine err.message := by
  rcases h with _ | @⟨left, right, op, x, y, _, -, -, hgives⟩
  · decide
  · rcases hgives with _ | _
    · decide
    · have hstart : SingleLine "result of " := by decide
      have hend : SingleLine " is not finite" := by decide
      exact (hstart.append (singleLine_operation x op y)).append hend

/-- The error of a calculation and its cause are told on one line each. -/
theorem singleLine_of_runCalculation {text : String} {t : Trace} {e : CalcError}
    (h : (runCalculation text t).1 = .error e) :
    SingleLine e.message ∧ ∀ cause ∈ e.cause?.toList, SingleLine cause := by
  have hprefixed {front cause : String} (hfront : SingleLine front) (hcause : SingleLine cause) :
      SingleLine (front ++ cause) ∧ ∀ c ∈ [cause], SingleLine c :=
    ⟨hfront.append hcause, by simpa using hcause⟩
  cases hparse : parse text with
  | error err =>
    rw [runCalculation, hparse] at h
    cases h
    obtain ⟨err, htokens, rfl⟩ | rfl | ⟨err, rfl⟩ := parse_eq_error hparse
    · exact hprefixed (by decide) (LexError.singleLine_message htokens)
    · exact ⟨by decide, fun _ hcause => absurd hcause List.not_mem_nil⟩
    · exact hprefixed (by decide) err.singleLine_message
  | ok parsed =>
    obtain ⟨tokens, tree⟩ := parsed
    obtain ⟨steps, hmeaning, hran⟩ := meaning_spec tree
    rw [runCalculation_of_parse hparse, hmeaning] at h
    cases hvalue : tree.value with
    | ok x =>
      rw [hvalue] at h
      cases h
    | error err =>
      rw [hvalue] at h hran
      cases h
      obtain ⟨node, -, hfails⟩ := hran.exists_fails
      exact hprefixed (by decide) hfails.singleLine_message

end Calculator
