import Calculator.Console.Outcome
import Calculator.Report
/-!
# Interactive sessions

A session prompts for one line after another and answers each by itself. It goes on after an
error in an expression, and ends with a quit word, with the end of the input, or with a line that is no
UTF-8 text.
-/

namespace Calculator.Console

def newline : UInt8 := 10

/-- The lines of the input, each with the newline that ends it; the last may lack one. -/
def cutLines (bytes : List UInt8) : List (List UInt8) :=
  bytes.foldr (fun b lines =>
    if b = newline then [b] :: lines
    else match lines with
      | [] => [[b]]
      | line :: lines => (b :: line) :: lines) []

def banner : String :=
  "Rust Console Calculator\nSupports: +, -, *, /, parentheses and unary minus\n" ++
    "Add 'details' before an expression for step-by-step evaluation, 'q' to quit\n"

def prompt : String := "\nExpression: "

def farewell : String := "Goodbye!\n"

/-- A line that ends the session, in upper or lower case. -/
def isQuit (line : String) : Bool := ["q", "quit", "exit"].contains (String.ofList (line.toList.map Char.toLower))

def detailsWord : List Char := "details ".toList

/-- Whether a trimmed line asks for details, and its expression. -/
def splitDetails (line : String) : Bool × String :=
  if detailsWord.isPrefixOf line.toList then (true, trim (String.ofList (line.toList.drop detailsWord.length)))
  else (false, line)

def answer (details tree : Bool) (expression : String) : String :=
  match render expression details tree with
  | .ok output => "  " ++ output
  | .error e => "  " ++ expression ++ " = Error: " ++ e.message ++ "\n"

/-- What a session does next. -/
inductive Reply where
  /-- It writes the text and goes on. -/
  | next (text : String)
  /-- It ends this way, writing what is left to write. -/
  | last (outcome : Outcome)
  deriving Repr, DecidableEq

def replyTo (tree : Bool) (line : String) : Reply :=
  let line := trim line
  if line.isEmpty then .next ""
  else if isQuit line then .last ⟨0, farewell, ""⟩
  else
    let (details, expression) := splitDetails line
    .next (answer details tree expression)

/-- The input could not be read on. -/
def unreadableInput : Failure := ⟨"failed to read input", ["stream did not contain valid UTF-8"]⟩

/-- The reply to the bytes of a line. -/
def reply (tree : Bool) (line : List UInt8) : Reply :=
  match String.fromUTF8? ⟨line.toArray⟩ with
  | none => .last (unreadableInput.outcome "")
  | some text => replyTo tree text

/-- The input ends where a line is asked for. -/
def endOfInput : Outcome := ⟨0, "", ""⟩

/-- Goes through the lines of a session that has written `written`. -/
def session (tree : Bool) (written : String) : List (List UInt8) → Outcome
  | [] => endOfInput.after (written ++ prompt)
  | line :: lines =>
    match reply tree line with
    | .next text => session tree (written ++ prompt ++ text) lines
    | .last outcome => outcome.after (written ++ prompt)

section

variable {tree : Bool} {line : List UInt8}

theorem session_nil (written : String) : session tree written [] = ⟨0, written ++ prompt, ""⟩ := by
  rw [session, endOfInput, Outcome.after, String.append_empty]

theorem session_next {text : String} (h : reply tree line = .next text) (written : String)
    (lines : List (List UInt8)) :
    session tree written (line :: lines) = session tree (written ++ prompt ++ text) lines := by
  rw [session, h]

/-- A session that ends with a line reads nothing after it. -/
theorem session_last {outcome : Outcome} (h : reply tree line = .last outcome) (written : String)
    (lines : List (List UInt8)) :
    session tree written (line :: lines) = outcome.after (written ++ prompt) := by
  rw [session, h]

end

def interactive (tree : Bool) (stdin : List UInt8) : Outcome := session tree banner (cutLines stdin)

end Calculator.Console
