/-!
# How the program ends

What a run of the program leaves behind: an exit code and the texts on its two outputs.
-/

namespace Calculator.Console

/-- The exit code of a run, and what it wrote. -/
structure Outcome where
  exit : UInt8
  stdout : String
  stderr : String
  deriving Repr, DecidableEq

/-- The outcome of a run that wrote `written` before it ended this way. -/
def Outcome.after (o : Outcome) (written : String) : Outcome := { o with stdout := written ++ o.stdout }

/-- A failure of the program, with its causes, the outermost first. -/
structure Failure where
  message : String
  causes : List String
  deriving Repr, DecidableEq

namespace Failure

/-- The causes with their numbers, from `number` on. -/
def numberedCauses (number : Nat) : List String → String
  | [] => ""
  | cause :: causes => "    " ++ toString number ++ ": " ++ cause ++ "\n" ++ numberedCauses (number + 1) causes

/-- A failure as it is shown. A single cause has no number. -/
def report (f : Failure) : String :=
  "Error: " ++ f.message ++ "\n" ++
    match f.causes with
    | [] => ""
    | [cause] => "\nCaused by:\n    " ++ cause ++ "\n"
    | causes => "\nCaused by:\n" ++ numberedCauses 0 causes

/-- A run that fails after writing `stdout`. -/
def outcome (f : Failure) (stdout : String) : Outcome := ⟨1, stdout, f.report⟩

theorem after_outcome (f : Failure) (written : String) : (f.outcome "").after written = f.outcome written := by
  rw [outcome, Outcome.after, String.append_empty, outcome]

end Failure

end Calculator.Console
