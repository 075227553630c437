import Calculator.Number.Power
/-!
# Decimals

A decimal is a whole number divided by a power of ten. Numerals are read as decimals and numbers
are printed as decimals, so both directions between text and number meet here.
-/

namespace Calculator

/-- The value `coefficient / 10 ^ places`. -/
structure Decimal where
  coefficient : Nat
  places : Nat
  deriving Repr, DecidableEq

namespace Decimal

open scoped Power

def wholeDigits (d : Decimal) : List Char := Nat.toDigits 10 (d.coefficient / 10 ^ d.places)

/-- The digits after the point, one for each place. -/
def fractionDigits (d : Decimal) : List Char :=
  if d.places = 0 then [] else (Nat.toDigits 10 (d.coefficient % 10 ^ d.places)).leftpad d.places '0'

/-- The characters of a decimal: all its digits, and a point exactly when it has places. -/
def chars (d : Decimal) : List Char :=
  d.wholeDigits ++ if d.places = 0 then [] else '.' :: d.fractionDigits

end Decimal

end Calculator
