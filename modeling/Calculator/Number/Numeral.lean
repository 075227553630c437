import Calculator.Number.Nearest
/-!
# Numerals

A numeral is read one character at a time: one or more digits, then at most one point, then any
number of digits. Every character must leave a numeral whose value is finite, so the first one that
does not is known at once.
-/

namespace Calculator

/-- What has been read of a numeral; the characters stand newest first. -/
structure Numeral where
  rev : List Char
  /-- The digits read, without the point, as one whole number. -/
  coefficient : Nat
  /-- How many digits follow the point; none before the point is read. -/
  places : Option Nat
  deriving Repr, DecidableEq

namespace Numeral

open scoped Power

def blank : Numeral := ⟨[], 0, none⟩

def isBlank (n : Numeral) : Bool := n.rev.isEmpty

def text (n : Numeral) : String := String.ofList n.rev.reverse

/-- The middle between the largest finite double and 2¹⁰²⁴: whole numbers below it, with any fraction
after them, stand for finite doubles. -/
def finiteBound : Nat := 2 ^ (1024 : Nat) - 2 ^ (970 : Nat)

/-- Reads one more character, if a finite numeral is left. -/
def push? (n : Numeral) (c : Char) : Option Numeral :=
  if c.isDigit then
    let coefficient := n.coefficient * 10 + (c.toNat - '0'.toNat)
    match n.places with
    | none => if coefficient < finiteBound then some ⟨c :: n.rev, coefficient, none⟩ else none
    | some places => some ⟨c :: n.rev, coefficient, some (places + 1)⟩
  else if c = '.' ∧ n.places = none ∧ n.rev ≠ [] then some ⟨c :: n.rev, n.coefficient, some 0⟩
  else none

def decimal (n : Numeral) : Decimal := ⟨n.coefficient, n.places.getD 0⟩

def value (n : Numeral) : Float := n.decimal.toFloat

end Numeral

end Calculator
