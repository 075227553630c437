/-!
# Blank characters

The characters with the Unicode property White_Space. They separate nothing: an expression
means the same with all of them removed.
-/

namespace Calculator

/-- The characters with the property White_Space, 25 in all. -/
def isBlank (c : Char) : Bool :=
  let n := c.toNat
  (0x09 ≤ n && n ≤ 0x0D) || n == 0x20 || n == 0x85 || n == 0xA0 || n == 0x1680 || (0x2000 ≤ n && n ≤ 0x200A)
    || n == 0x2028 || n == 0x2029 || n == 0x202F || n == 0x205F || n == 0x3000

/-- The characters without their blank ones. -/
def dropBlanks (cs : List Char) : List Char := cs.filter (fun c => !isBlank c)

@[simp] theorem dropBlanks_append (cs ds : List Char) : dropBlanks (cs ++ ds) = dropBlanks cs ++ dropBlanks ds :=
  List.filter_append ..

/-- The text without the blank characters at either end. -/
def trim (s : String) : String :=
  String.ofList (((s.toList.dropWhile isBlank).reverse.dropWhile isBlank).reverse)

end Calculator
