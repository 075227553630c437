import Calculator.Number.Numeral
import Calculator.Text.Blank
import Calculator.Token
/-!
# From text to tokens

Blank characters are dropped first, so they never separate two digits. What is left is read
from left to right: a symbol ends the numeral before it and is a token of its own, and any other
character has to continue the numeral. The first character that does not is the error.
-/

namespace Calculator

/-- A character that continues no numeral, and the numeral it was to continue. -/
structure LexError where
  character : Char
  fragment : String
  deriving Repr, DecidableEq

/-- The message names the numeral only if there is one. -/
def LexError.message (e : LexError) : String :=
  "unexpected character '" ++ e.character.toString ++ "'"
    ++ if e.fragment.isEmpty then "" else " in numeral '" ++ e.fragment ++ "'"

/-- A text read so far: the finished tokens, newest first, and the numeral that may go on. -/
structure Scan where
  tokens : List Token
  numeral : Numeral

namespace Scan

def start : Scan := ⟨[], .blank⟩

/-- The tokens, newest first, once the numeral has ended. -/
def flush (s : Scan) : List Token :=
  if s.numeral.isBlank then s.tokens else .number s.numeral.value :: s.tokens

/-- Reads one character that is not blank. -/
def read (s : Scan) (c : Char) : Except LexError Scan :=
  match Token.ofSymbol? c with
  | some t => .ok ⟨t :: s.flush, .blank⟩
  | none =>
    match s.numeral.push? c with
    | some n => .ok ⟨s.tokens, n⟩
    | none => .error ⟨c, s.numeral.text⟩

end Scan

def tokenize (text : String) : Except LexError (List Token) := do
  let s ← (dropBlanks text.toList).foldlM Scan.read Scan.start
  return s.flush.reverse

end Calculator
