import Calculator.Proofs.Console.Conversation
import Calculator.Proofs.Console.Reports
import Calculator.Proofs.Token.Echoing
/-!
# A session and a single calculation agree

An expression may be an argument of the program or stand on a line of a session. The argument is taken as it is, the line
is trimmed and asks for details in words. Both come to the same report or the same error, since blanks are no part of any
token, and an error line is never taken for a report, since the result in a report is a number.

Main statement: `agree_session_run`.
-/

namespace Calculator.Console

variable {expression text : String} {details tree : Bool} {line : List UInt8}

/-! ## The two ways to write an expression -/

/-- What asks a session for an expression, with details or without. -/
def request (details : Bool) (expression : String) : String := (if details then "details " else "") ++ expression

/-- The line is this text. The last line of the input may lack its newline. -/
def IsLineOf (line : List UInt8) (text : String) : Prop := line = utf8 text ∨ line = utf8 text ++ [newline]

/-- A text that is an expression for a session and as an argument. -/
structure Writable (expression : String) : Prop where
  single : SingleLine expression
  filled : trim expression ≠ ""
  no_quit : ¬ IsQuitWord (trim expression)
  no_details : ¬ detailsWord <+: (trim expression).toList
  no_option : ¬ OptionLike expression

theorem carries_of_isLineOf (h : IsLineOf line text) : Carries line (trim text) := by
  rcases h with rfl | rfl
  · exact ⟨text, decodes_utf8 text, rfl⟩
  · refine ⟨text ++ "\n", ?_, trim_append (by decide)⟩
    rw [decodes_iff, utf8_append, utf8_newline]

/-- A text without line breaks is one line of the input, with a newline at its end or without. -/
theorem cutLines_of_isLineOf (h : IsLineOf line text) (hsingle : SingleLine text) (hfilled : text ≠ "") :
    cutLines line = [line] := by
  rcases h with rfl | rfl
  · exact cutLines_unended (utf8_ne_nil hfilled) (newline_not_mem_utf8 hsingle)
  · have hcut := cutLines_whole ⟨utf8 text, newline_not_mem_utf8 hsingle, rfl⟩ []
    rwa [List.append_nil] at hcut

theorem cutLines_request (h : Writable expression) (hline : IsLineOf line (request details expression)) :
    cutLines line = [line] := by
  have hword : SingleLine (if details then "details " else "") := by cases details <;> decide
  have hfilled : expression ≠ "" := by
    rintro rfl
    exact h.filled (by decide)
  exact cutLines_of_isLineOf hline (hword.append h.single) (by simp [request, hfilled])

theorem detailsWord_eq : detailsWord = ['d', 'e', 't', 'a', 'i', 'l', 's', ' '] := by decide

/-- The word that asks for details comes before what is left of the blanks around the expression. -/
theorem toList_trim_details (hfilled : trim expression ≠ "") :
    ∃ before, AllBlank before ∧
      (trim ("details " ++ expression)).toList = detailsWord ++ (before ++ (trim expression).toList) := by
  obtain ⟨before, after, hbefore, hafter, hexpression⟩ := exists_trim expression
  have htrimmed : Trimmed (detailsWord ++ (before ++ (trim expression).toList)) := by
    constructor
    · intro c rest hcut
      rw [detailsWord_eq, List.cons_append] at hcut
      obtain rfl := (List.cons.inj hcut).1
      rfl
    · intro c front hcut
      have hne : (trim expression).toList ≠ [] := by simpa using hfilled
      obtain ⟨front', last, hlast⟩ := (List.eq_nil_or_concat' _).resolve_left hne
      obtain rfl : last = c := by simpa [hlast] using congrArg List.getLast? hcut
      exact (trimmed_trim expression).last hlast
  have hrequest : ("details " ++ expression).toList =
      [] ++ (detailsWord ++ (before ++ (trim expression).toList)) ++ after := by
    have hword : "details ".toList = detailsWord := rfl
    rw [String.toList_append, hword, hexpression]
    simp only [List.nil_append, List.append_assoc]
  exact ⟨before, hbefore, toList_trim_of_eq (by decide) hafter htrimmed hrequest⟩

theorem splitDetails_details (hfilled : trim expression ≠ "") :
    splitDetails (trim ("details " ++ expression)) = (true, trim expression) := by
  obtain ⟨before, hbefore, htrim⟩ := toList_trim_details hfilled
  have hprefix : detailsWord.isPrefixOf (trim ("details " ++ expression)).toList = true := by
    rw [htrim, List.isPrefixOf_iff_prefix]
    exact List.prefix_append ..
  have hrest : trim (String.ofList (before ++ (trim expression).toList)) = trim expression := by
    apply String.toList_inj.1
    refine toList_trim_of_eq hbefore (by decide : AllBlank []) (trimmed_trim expression) ?_
    rw [String.toList_ofList, List.append_nil]
  unfold splitDetails
  rw [if_pos hprefix, htrim, List.drop_left, hrest]

theorem splitDetails_plain (h : ¬ detailsWord <+: text.toList) : splitDetails text = (false, text) := by
  unfold splitDetails
  rw [if_neg (by rwa [List.isPrefixOf_iff_prefix])]

theorem not_isQuitWord_details (hfilled : trim expression ≠ "") : ¬ IsQuitWord (trim ("details " ++ expression)) := by
  obtain ⟨before, -, htrim⟩ := toList_trim_details hfilled
  rintro ⟨word, hword, h⟩
  rw [htrim, detailsWord_eq, List.cons_append] at h
  have hfirst : ∀ word ∈ ["q", "quit", "exit"], word.toList.head? ∈ [some 'q', some 'e'] := by decide
  cases hletters : word.toList with
  | nil => simp [hletters] at h
  | cons letter letters =>
    have hletter : some letter ∈ [some 'q', some 'e'] := by simpa [hletters] using hfirst word hword
    rw [hletters, List.forall₂_cons] at h
    obtain rfl | rfl : letter = 'q' ∨ letter = 'e' := by simpa using hletter
    · exact absurd h.1 (by decide)
    · exact absurd h.1 (by decide)

theorem reply_request (h : Writable expression) (hline : IsLineOf line (request details expression)) :
    reply tree line = .next (answer details tree (trim expression)) := by
  have hcarries := carries_of_isLineOf hline
  cases details with
  | false =>
    have hplain : request false expression = expression := String.empty_append
    rw [hplain] at hcarries
    rw [reply_of_carries hcarries h.no_quit, replyText, if_neg h.filled, splitDetails_plain h.no_details]
  | true =>
    have hsplit := splitDetails_details h.filled
    have hword : request true expression = "details " ++ expression := rfl
    have hfilled : trim ("details " ++ expression) ≠ "" := by
      obtain ⟨before, -, htrim⟩ := toList_trim_details h.filled
      rw [← String.toList_inj.ne, htrim, detailsWord_eq]
      simp
    rw [hword] at hcarries
    rw [reply_of_carries hcarries (not_isQuitWord_details h.filled), replyText, if_neg hfilled, hsplit]

/-! ## The reply of a session -/

/-- Input after which a session waits for its next line: whole lines, none of which ends it. -/
def Waits (input : List UInt8) : Prop :=
  ∃ lines texts, (∀ line ∈ lines, Whole line) ∧ Answered lines texts ∧ input = lines.flatten

/-- The program replies to the line with the text: it writes what it writes if the input ends before the line, then the
text, and prompts again. -/
def Replies (program : List UInt8 → Outcome) (before line : List UInt8) (text : String) : Prop :=
  program (before ++ line) = ⟨0, (program before).stdout ++ text ++ prompt, ""⟩

/-- Wherever a session waits for a line, it replies to it as it does to that line alone. -/
theorem replies_iff {before : List UInt8} {output : String} (hbefore : Waits before) (hcut : cutLines line = [line])
    (hreply : reply tree line = .next output) : Replies (interactive tree) before line text ↔ text = output := by
  obtain ⟨lines, texts, hwhole, hanswered, rfl⟩ := hbefore
  rw [Replies, interactive_answered hwhole hanswered, interactive_waiting hwhole hanswered, hcut,
    session_next hreply, session_nil, Outcome.mk.injEq, String.append_left_inj, String.append_right_inj]
  simp [eq_comm]

/-! ## The same calculation -/

theorem tokenize_trim (s : String) : tokenize (trim s) = tokenize s := by
  unfold tokenize
  rw [dropBlanks_trim]

theorem render_trim (s : String) (details tree : Bool) : render (trim s) details tree = render s details tree := by
  unfold render
  rw [runCalculation_congr (tokenize_trim s)]

/-! ## Reports and error lines -/

/-- What a session writes of an expression without value. -/
def errorLine (expression message : String) : String := expression ++ " = Error: " ++ message ++ "\n"

/-- A text that has tokens has no equals sign. -/
theorem not_mem_equals_of_tokenize {ts : List Token} (h : tokenize text = .ok ts) : '=' ∉ text.toList :=
  not_mem_of_tokenize h (by decide) (by decide)

theorem toList_errorLine (expression message : String) :
    (errorLine expression message).toList =
      (expression.toList ++ [' ']) ++ '=' :: ' ' :: 'E' :: ("rror: " ++ message ++ "\n").toList := by
  simp [errorLine]

theorem errorLine_inj {message message' : String} (h : errorLine expression message = errorLine expression message') :
    message = message' := by
  rwa [errorLine, errorLine, String.append_left_inj, String.append_right_inj] at h

theorem toList_report (c : Calculation) (steps : List Step) (details tree : Bool) :
    ∃ more, (c.report steps details tree).toList =
      ((echo c.tokens).toList ++ [' ']) ++ '=' :: ' ' :: (Number.chars c.result ++ '\n' :: more) := by
  simp only [Calculation.report, String.toList_append, Number.text, String.toList_ofList, List.append_assoc]
  exact ⟨_, rfl⟩

theorem report_of_render {output : String} (h : render expression details tree = .ok output) :
    ∃ (c : Calculation) (steps : List Step),
      tokenize expression = .ok c.tokens ∧ output = c.report steps details tree := by
  rw [render_eq] at h
  cases hrun : (runCalculation expression (.empty details)).1 with
  | error e =>
    rw [hrun] at h
    cases h
  | ok c =>
    obtain ⟨htokens, -⟩ := derives_of_parse (parse_of_run hrun)
    rw [hrun] at h
    exact ⟨c, _, htokens, (Except.ok.inj h).symm⟩

/-- A report is no error line, as it has a number behind its first equals sign. -/
theorem ne_errorLine_of_render {output : String} (h : render expression details tree = .ok output) (message : String) :
    output ≠ errorLine (trim expression) message := by
  obtain ⟨c, steps, htokens, rfl⟩ := report_of_render h
  obtain ⟨more, hreport⟩ := toList_report c steps details tree
  have hexpression : '=' ∉ (trim expression).toList := not_mem_equals_of_tokenize ((tokenize_trim _).trans htokens)
  have hecho : '=' ∉ (echo c.tokens).toList := not_mem_equals_of_tokenize (tokenize_echo (readable_of_tokenize htokens))
  intro heq
  have hlist := congrArg String.toList heq
  rw [hreport, toList_errorLine] at hlist
  obtain ⟨-, hbehind⟩ := cut_at_first (by simpa using hecho) (by simpa using hexpression) hlist
  cases hchars : Number.chars c.result with
  | nil => simp [hchars] at hbehind
  | cons d ds =>
    obtain ⟨rfl, -⟩ : d = 'E' ∧ _ := by simpa [hchars] using hbehind
    rcases mem_chars (hchars ▸ List.mem_cons_self) with hdigit | hother
    · cases hdigit
    · revert hother
      decide

theorem plain_ofCalcError {e : CalcError} (hsingle : SingleLine expression)
    (h : render expression details tree = .error e) : (Failure.ofCalcError expression e).Plain := by
  obtain ⟨hmessage, hcause⟩ := singleLine_of_runCalculation (error_of_render h)
  have hstart : SingleLine "cannot calculate \"" := by decide
  have hend : SingleLine "\"" := by decide
  exact ⟨(hstart.append hsingle).append hend, List.forall_mem_cons.2 ⟨hmessage, hcause⟩⟩

/-! ## The main statement -/

/-- The reply to an expression agrees with a run on the expression alone. The reply is the text of which `replied` holds. -/
structure Agree (expression : String) (replied : String → Prop) (outcome : Outcome) : Prop where
  /-- The reply is an output if the run writes just that and succeeds. An error line is no output. -/
  output (output : String) :
    (replied ("  " ++ output) ∧ ∀ message, output ≠ errorLine (trim expression) message) ↔
      outcome.exit = 0 ∧ outcome.stdout = output
  /-- The reply is an error line if the run fails with this error and writes nothing. -/
  error (message : String) :
    replied ("  " ++ errorLine (trim expression) message) ↔
      outcome.exit = 1 ∧ outcome.stdout = "" ∧ ListsCause outcome.stderr message
  /-- The run does one or the other. -/
  total : outcome.exit = 0 ∨ outcome.exit = 1 ∧ outcome.stdout = "" ∧ ∃ message, ListsCause outcome.stderr message

theorem agree_of_output {output : String} (h : ∀ message, output ≠ errorLine (trim expression) message) :
    Agree expression (· = "  " ++ output) ⟨0, output, ""⟩ where
  output other := by
    constructor
    · rintro ⟨hreply, -⟩
      exact ⟨rfl, ((String.append_right_inj _).1 hreply).symm⟩
    · rintro ⟨-, rfl⟩
      exact ⟨rfl, h⟩
  error message := by
    constructor
    · intro hreply
      exact absurd ((String.append_right_inj _).1 hreply).symm (h message)
    · rintro ⟨hexit, -⟩
      cases hexit
  total := .inl rfl

theorem agree_of_failure {f : Failure} {message : String} (hf : f.Plain) (hcause : f.causes.head? = some message) :
    Agree expression (· = "  " ++ errorLine (trim expression) message) (f.outcome "") where
  output output := by
    constructor
    · rintro ⟨hreply, hother⟩
      exact absurd ((String.append_right_inj _).1 hreply) (hother message)
    · rintro ⟨hexit, -⟩
      cases hexit
  error other := by
    have hlists : ListsCause (f.outcome "").stderr other ↔ message = other := by
      rw [Failure.outcome, listsCause_report_iff hf, hcause, Option.some.injEq]
    rw [hlists]
    constructor
    · intro hreply
      exact ⟨rfl, rfl, (errorLine_inj ((String.append_right_inj _).1 hreply)).symm⟩
    · rintro ⟨-, -, rfl⟩
      rfl
  total := .inr ⟨rfl, rfl, message, (listsCause_report_iff hf).2 hcause⟩

/-- What a session answers agrees with the run. -/
theorem agree_answer {args : List String} (h : Writable expression) (hargs : Asks args details tree [expression])
    (stdin : List UInt8) :
    Agree expression (· = answer details tree (trim expression)) (run args stdin) := by
  rw [run, hargs.read_eq_expression h.no_option, answer, render_trim]
  simp only [oneShot]
  cases hrender : render expression details tree with
  | ok output => exact agree_of_output (ne_errorLine_of_render hrender)
  | error e =>
    have hfailure : Agree expression _ _ := agree_of_failure (plain_ofCalcError h.single hrender) rfl
    rwa [errorLine, ← String.append_assoc, ← String.append_assoc, ← String.append_assoc] at hfailure

theorem Agree.congr {replied replied' : String → Prop} {outcome : Outcome} (h : Agree expression replied outcome)
    (hiff : ∀ text, replied' text ↔ replied text) : Agree expression replied' outcome := by
  obtain rfl : replied' = replied := funext fun text => propext (hiff text)
  exact h

/-- A single calculation and a line of a session agree on every text that is an expression for both, whatever flags there
are and wherever they stand. The session's reply is the output of the run behind two spaces, or one line with the error that
the run gives as its outermost cause. This holds of the reply to the line alone, and of every session with the same tree
flag that comes to the line. -/
theorem agree_session_run {args sessionArgs : List String} {details' : Bool} (h : Writable expression)
    (hargs : Asks args details tree [expression]) (hsession : Asks sessionArgs details' tree [])
    (hline : IsLineOf line (request details expression)) (stdin : List UInt8) :
    Agree expression (fun text => reply tree line = .next text) (run args stdin) ∧
      ∀ before, Waits before → Agree expression (Replies (run sessionArgs) before line) (run args stdin) := by
  have hreply : reply tree line = .next _ := reply_request h hline
  have hagree := agree_answer h hargs stdin
  constructor
  · exact hagree.congr fun text => by rw [hreply, Reply.next.injEq, eq_comm]
  · intro before hbefore
    rw [hsession.run_eq]
    exact hagree.congr fun text => replies_iff hbefore (cutLines_request h hline) hreply

/-- Two spaces also stand before an error line: a session replies to an unclosed group with what looks like an output, and
the run on it has none. -/
theorem not_output_of_unclosed_group :
    Writable "(" ∧ Asks ["("] false false ["("] ∧ Asks [] false false [] ∧
      IsLineOf (utf8 "(\n") (request false "(") ∧ Waits [] ∧
      ¬ (Replies (run []) [] (utf8 "(\n") ("  " ++ "( = Error: parse error: unmatched parenthesis\n") ↔
        (run ["("] []).exit = 0 ∧ (run ["("] []).stdout = "( = Error: parse error: unmatched parenthesis\n") := by
  have hreplied : Replies (run []) [] (utf8 "(\n") ("  " ++ "( = Error: parse error: unmatched parenthesis\n") := by
    unfold Replies
    decide +kernel
  refine ⟨⟨by decide, by decide, isQuit_iff.not.1 (by decide), by decide, by decide⟩, ⟨by decide, by decide, by decide⟩,
    ⟨rfl, rfl, rfl⟩, .inr (by decide), ⟨[], [], nofun, .nil, rfl⟩, ?_⟩
  intro hiff
  obtain ⟨hexit, -⟩ := hiff.1 hreplied
  exact absurd hexit (by decide)

/-- An unclosed group between blanks, with details, and a number with the tree. -/
theorem agree_unclosed_group_and_number :
    (Writable " ( " ∧ Asks ["-d", " ( ", "-d"] true false [" ( "] ∧ Asks ["-d"] true false [] ∧
      IsLineOf (utf8 "details  ( \n") (request true " ( ") ∧
      (run ["-d", " ( ", "-d"] []).exit = 1 ∧
      ListsCause (run ["-d", " ( ", "-d"] []).stderr "parse error: unmatched parenthesis") ∧
    Writable "2 " ∧ Asks ["2 ", "--tree"] false true ["2 "] ∧ Asks ["-t"] false true [] ∧
      IsLineOf (utf8 "2 ") (request false "2 ") ∧ Waits (utf8 "(\n") ∧
      Replies (run ["-t"]) (utf8 "(\n") (utf8 "2 ") ("  " ++ "2 = 2\n  Tree: 2\n") := by
  have hgroup : Writable " ( " := ⟨by decide, by decide, isQuit_iff.not.1 (by decide), by decide, by decide⟩
  have hnumber : Writable "2 " := ⟨by decide, by decide, isQuit_iff.not.1 (by decide), by decide, by decide⟩
  have hargs : Asks ["-d", " ( ", "-d"] true false [" ( "] := ⟨by decide, by decide, by decide⟩
  have hargs' : Asks ["2 ", "--tree"] false true ["2 "] := ⟨by decide, by decide, by decide⟩
  have hsession : Asks ["-d"] true false [] := ⟨by decide, by decide, by decide⟩
  have hsession' : Asks ["-t"] false true [] := ⟨by decide, by decide, by decide⟩
  have hline : IsLineOf (utf8 "details  ( \n") (request true " ( ") := .inr (by decide)
  have hline' : IsLineOf (utf8 "2 ") (request false "2 ") := .inl (by decide)
  have hwhole : Whole (utf8 "(\n") := ⟨utf8 "(", by decide, by decide⟩
  have hanswered : Answered [utf8 "(\n"] ["("] :=
    .cons ⟨⟨"(\n", decodes_utf8 _, by decide⟩, isQuit_iff.not.1 (by decide)⟩ .nil
  have hbefore : Waits (utf8 "(\n") := ⟨_, _, by simpa using hwhole, hanswered, by decide⟩
  have hagree := (agree_session_run hgroup hargs hsession hline []).1
  have hagree' := (agree_session_run hnumber hargs' hsession' hline' []).2 _ hbefore
  obtain ⟨hexit, -, hcause⟩ := (hagree.error _).1 (by decide :
    reply false (utf8 "details  ( \n") = .next ("  " ++ errorLine "(" "parse error: unmatched parenthesis"))
  have houtput := (hagree'.output "2 = 2\n  Tree: 2\n").2 ⟨by decide +kernel, by decide +kernel⟩
  exact ⟨⟨hgroup, hargs, hsession, hline, hexit, hcause⟩, hnumber, hargs', hsession', hline', hbefore, houtput.1⟩

end Calculator.Console
