import Calculator.Console.Program
/-!
# The command line

The program itself: it reads arguments and input, asks `Console.run` or `Console.reply` what to
write, and writes it. A session is answered line by line as its lines arrive, with the replies and the ends
that `Console.session` has for all lines at once.
-/

namespace Calculator.Console

/-- Writes what a finished run leaves behind, and gives its exit code. -/
def Outcome.write (o : Outcome) : IO UInt32 := do
  (← IO.getStdout).putStr o.stdout
  (← IO.getStdout).flush
  (← IO.getStderr).putStr o.stderr
  return o.exit.toUInt32

/-- The next line of the input, and the bytes read beyond it. -/
partial def nextLine (stdin : IO.FS.Stream) (line : List UInt8) : List UInt8 → IO (List UInt8 × List UInt8)
  | [] => do
    let bytes ← stdin.read 4096
    if bytes.isEmpty then return (line.reverse, []) else nextLine stdin line bytes.toList
  | b :: rest => if b = newline then return ((b :: line).reverse, rest) else nextLine stdin (b :: line) rest

/-- Goes on with a session, `ahead` being read but not yet answered. -/
partial def converse (tree : Bool) (ahead : List UInt8) : IO UInt32 := do
  let stdout ← IO.getStdout
  stdout.putStr prompt
  stdout.flush
  let (line, ahead) ← nextLine (← IO.getStdin) [] ahead
  match if line.isEmpty then .last endOfInput else reply tree line with
  | .next text => stdout.putStr text; converse tree ahead
  | .last outcome => outcome.write

end Calculator.Console

open Calculator.Console in
def main (args : List String) : IO UInt32 := do
  match Options.initial.read args with
  | .calculate ⟨_, tree, none⟩ =>
    (← IO.getStdout).putStr banner
    converse tree []
  | _ => (run args []).write
