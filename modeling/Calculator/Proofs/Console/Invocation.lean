import Calculator.Proofs.Console.Arguments
import Calculator.Proofs.Console.Rendering
/-!
# An expression among flags

Options begin with a minus, and so may an expression. But no expression begins with two of them, and none has a letter, so a
text that has a value is no option (`not_optionLike_of_calculate`). The program then finds it among any flags, and
writes its whole report, or nothing but the error.

Main statement: `run_among_flags`.
-/

namespace Calculator.Console

variable {text expression : String} {tokens : List Token} {tree : Expr}

/-! ## No expression is an option -/

theorem not_dashes_of_parse (h : parse text = .ok (tokens, tree)) : ¬ "--".toList <+: text.toList := by
  rintro ⟨rest, hrest⟩
  obtain ⟨htokens, hderives, -⟩ := derives_of_parse h
  have htext : text = '-'.toString ++ ('-'.toString ++ String.ofList rest) := by
    rw [← String.toList_inj, ← hrest]
    simp
  rw [htext, tokenize_symbol_append rfl, tokenize_symbol_append rfl] at htokens
  cases hmore : tokenize (String.ofList rest) with
  | error e =>
    rw [hmore] at htokens
    cases htokens
  | ok ts =>
    rw [hmore] at htokens
    obtain rfl := Except.ok.inj htokens
    -- behind a unary minus no other can be read
    have hreads : (Cursor.mk .first 0).reads (.minus :: .minus :: ts) = some ⟨.operator, 0⟩ := hderives.reads (.inl rfl)
    cases hreads

/-- A text that has a value is not taken for an option. -/
theorem not_optionLike_of_calculate {x : Float} (h : calculate text = .ok x) : ¬ OptionLike text := by
  obtain ⟨tokens, tree, hparse⟩ := (isExpression_of_ok h).exists_parse
  obtain ⟨htokens, -⟩ := derives_of_parse hparse
  have hletter {c : Char} (hblank : isBlank c = false) (hother : ¬ IsTokenChar c) : c ∉ text.toList :=
    not_mem_of_tokenize htokens hblank hother
  rintro (hdashes | hshort)
  · exact not_dashes_of_parse hparse hdashes
  · simp only [List.mem_cons, List.not_mem_nil, or_false] at hshort
    rcases hshort with rfl | rfl | rfl
    · exact absurd (by decide : 'd' ∈ "-d".toList) (hletter (by decide) (by decide))
    · exact absurd (by decide : 't' ∈ "-t".toList) (hletter (by decide) (by decide))
    · exact absurd (by decide : 'h' ∈ "-h".toList) (hletter (by decide) (by decide))

/-! ## One run -/

/-- How an error is listed as a cause. It needs numbers if the part that failed has an error of its own. -/
def causeLines (e : CalcError) : List String :=
  match e.cause? with
  | none => ["    " ++ e.message]
  | some inner => ["    0: " ++ e.message, "    1: " ++ inner]

/-- The lines that tell why an expression has no value. -/
def failureLines (expression : String) (e : CalcError) : List String :=
  ("Error: cannot calculate \"" ++ expression ++ "\"") :: "" :: "Caused by:" :: causeLines e

theorem lines_ofCalcError (expression : String) (e : CalcError) :
    (Failure.ofCalcError expression e).lines = failureLines expression e := by
  have hstart : "Error: " ++ "cannot calculate \"" = "Error: cannot calculate \"" := by decide
  have hfirst : "Error: " ++ ("cannot calculate \"" ++ expression ++ "\"") =
      "Error: cannot calculate \"" ++ expression ++ "\"" := by
    rw [← String.append_assoc, ← String.append_assoc, hstart]
  have hzero : "    " ++ toString 0 ++ ": " = "    0: " := by decide
  have hone : "    " ++ toString 1 ++ ": " = "    1: " := by decide
  unfold Failure.ofCalcError failureLines causeLines
  cases e.cause? with
  | none => simp only [Failure.lines, Option.toList, hfirst]
  | some inner => simp only [Failure.lines, Failure.numberedLines, Option.toList, hfirst, hzero, hone]

theorem oneShot_of_error {details showTree : Bool} {e : CalcError} (h : calculate expression = .error e) :
    oneShot expression details showTree = ⟨1, "", joinLines (failureLines expression e)⟩ := by
  rw [oneShot, render_eq_error_iff.2 h]
  simp only
  rw [Failure.outcome, Failure.report_eq, lines_ofCalcError]

theorem oneShot_of_ok {x : Float} (h : calculate expression = .ok x) (details showTree : Bool) :
    ∃ output, render expression details showTree = .ok output ∧ oneShot expression details showTree = ⟨0, output, ""⟩ := by
  cases hrender : render expression details showTree with
  | error e => cases h.symm.trans (render_eq_error_iff.1 hrender)
  | ok output => exact ⟨output, rfl, by rw [oneShot, hrender]⟩

/-! ## The main statement -/

/-- The program finds an expression among flags, wherever they stand and however often. If it has a value, the program
succeeds and writes the whole report that the flags ask for. If it has none, and is not like an option, the program
fails, and all that it writes is the error with its causes. -/
theorem run_among_flags {front back : List String} (hflags : ∀ arg ∈ front ++ back, isFlag arg = true)
    (expression : String) (stdin : List UInt8) :
    (∀ x, calculate expression = .ok x →
      ∃ output, render expression ((front ++ back).any isDetailsFlag) ((front ++ back).any isTreeFlag) = .ok output ∧
        run (front ++ expression :: back) stdin = ⟨0, output, ""⟩) ∧
    ∀ e, calculate expression = .error e → ¬ OptionLike expression →
      run (front ++ expression :: back) stdin = ⟨1, "", joinLines (failureLines expression e)⟩ := by
  have hrun (hoption : ¬ OptionLike expression) : run (front ++ expression :: back) stdin =
      oneShot expression ((front ++ back).any isDetailsFlag) ((front ++ back).any isTreeFlag) := by
    rw [run, read_among_flags hflags hoption]
  constructor
  · intro x hx
    rw [hrun (not_optionLike_of_calculate hx)]
    exact oneShot_of_ok hx _ _
  · intro e he hoption
    rw [hrun hoption]
    exact oneShot_of_error he

/-- An expression that begins as an option does, and one without an end. -/
theorem run_minus_and_open_group_among_flags :
    (∀ arg ∈ ["-t"] ++ ["-d", "--tree"], isFlag arg = true) ∧
      run ["-t", "-2*3", "-d", "--tree"] [] = ⟨0, "-2 * 3 = -6\n  Tree: \x7b -2 * 3 \x7d\n" ++
        "  Step-by-step evaluation:\n  Step 1: -2 * 3 = -6\n", ""⟩ ∧
      (∀ arg ∈ [] ++ ["--details"], isFlag arg = true) ∧ ¬ OptionLike "(" ∧
      run ["(", "--details"] [] = ⟨1, "", "Error: cannot calculate \"(\"\n\nCaused by:\n" ++
        "    0: parse error: unmatched parenthesis\n    1: unmatched parenthesis\n"⟩ := by
  have hflags : ∀ arg ∈ ["-t"] ++ ["-d", "--tree"], isFlag arg = true := by decide
  have hflags' : ∀ arg ∈ [] ++ ["--details"], isFlag arg = true := by decide
  have hvalue : calculate "-2*3" = .ok (-6) := by decide +kernel
  have herror : calculate "(" = .error (.parse .unmatchedParenthesis) := by decide +kernel
  have hoption : ¬ OptionLike "(" := by decide
  obtain ⟨output, hrender, hrun⟩ := (run_among_flags hflags "-2*3" []).1 _ hvalue
  have hreport : render "-2*3" true true = .ok ("-2 * 3 = -6\n  Tree: \x7b -2 * 3 \x7d\n" ++
    "  Step-by-step evaluation:\n  Step 1: -2 * 3 = -6\n") := by decide +kernel
  obtain rfl := Except.ok.inj (hrender.symm.trans hreport)
  exact ⟨hflags, hrun, hflags', hoption, (run_among_flags hflags' "(" []).2 _ herror hoption⟩

end Calculator.Console
