import Calculator.Number.Shortest
/-!
# The text of a number

A finite number is written with the fewest digits that read back, always positionally: never with an
exponent, and with a point only if digits follow it. The sign is that of the sign bit, so the
two zeros differ.
-/

namespace Calculator.Number

open Binary64

/-- The characters of a pattern without a sign. -/
def magnitudeChars (code : Nat) : List Char :=
  if code < infinityCode then (shortestDecimal code).chars
  else if code = infinityCode then ['i', 'n', 'f'] else ['N', 'a', 'N']

/-- The sign bit of a number is set. -/
def isNegative (x : Float) : Bool := signCode ≤ x.toBits.toNat

/-- The pattern of a number without its sign. -/
def magnitude (x : Float) : Nat := x.toBits.toNat % signCode

/-- The characters of a number; one that is not a number has no sign. -/
def chars (x : Float) : List Char :=
  if isNegative x && magnitude x ≤ infinityCode then '-' :: magnitudeChars (magnitude x)
  else magnitudeChars (magnitude x)

/-- The text of a number. -/
def text (x : Float) : String := String.ofList (chars x)

end Calculator.Number
