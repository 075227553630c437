/-!
# Powers of whole numbers

The powers in the definitions about numbers are core's own, also where a library brings in another way to
raise to a power. Exponents that are numerals have their type written out, so that no other way is the default.
-/

namespace Calculator.Power

scoped instance (priority := high) natPow : Pow Nat Nat := instPowNat

end Calculator.Power
