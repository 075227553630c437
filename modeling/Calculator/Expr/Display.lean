import Calculator.Expr
import Calculator.Number.Text
/-!
# The text of a tree

Every binary operation is written in braces, every group in parentheses, and a missing operand as
`X`, so the text shows the shape of the tree. It is written from a list of pieces still to
come rather than by recursion, since trees can be very deep.
-/

namespace Calculator

namespace Expr

/-- A part of a tree's text that is still to be written. -/
inductive Piece where
  | node (e : Expr)
  | fixed (text : String)

namespace Piece

def weight : Piece → Nat
  | node e => 3 * e.walkLength
  | fixed _ => 1

end Piece

/-- Writes the pieces behind `written`, in order. -/
def writeOnto (written : String) : List Piece → String
  | [] => written
  | .fixed text :: ps => writeOnto (written ++ text) ps
  | .node (.number x) :: ps => writeOnto (written ++ Number.text x) ps
  | .node .slot :: ps => writeOnto (written ++ "X") ps
  | .node (.group inner) :: ps => writeOnto written (.fixed "(" :: .node inner :: .fixed ")" :: ps)
  | .node (.negated inner) :: ps => writeOnto written (.fixed "-(" :: .node inner :: .fixed ")" :: ps)
  | .node (.binary left op right) :: ps =>
    writeOnto written (.fixed "\x7b " :: .node left :: .fixed (" " ++ op.text ++ " ") :: .node right
      :: .fixed " \x7d" :: ps)
termination_by ps => ps.foldr (fun p steps => p.weight + steps) 0
decreasing_by all_goals simp [Piece.weight, walkLength] <;> omega

def text (e : Expr) : String := writeOnto "" [.node e]

/-! ## The same text by recursion -/

/-- The text of a tree, put together from the texts of its parts. -/
def shown : Expr → String
  | number x => Number.text x
  | slot => "X"
  | group inner => "(" ++ inner.shown ++ ")"
  | negated inner => "-(" ++ inner.shown ++ ")"
  | binary left op right => "\x7b " ++ left.shown ++ (" " ++ op.text ++ " ") ++ right.shown ++ " \x7d"

/-- A tree among the pieces writes its text, whatever follows. -/
theorem writeOnto_node (e : Expr) (written : String) (ps : List Piece) :
    writeOnto written (.node e :: ps) = writeOnto (written ++ e.shown) ps := by
  induction e generalizing written ps with
  | number x => rw [writeOnto, shown]
  | slot => rw [writeOnto, shown]
  | group inner ih => rw [writeOnto, writeOnto, ih, writeOnto, shown]; simp only [String.append_assoc]
  | negated inner ih => rw [writeOnto, writeOnto, ih, writeOnto, shown]; simp only [String.append_assoc]
  | binary left op right ihl ihr =>
    rw [writeOnto, writeOnto, ihl, writeOnto, ihr, writeOnto, shown]; simp only [String.append_assoc]

/-- Writing from a list of pieces and writing by recursion give the same text. -/
theorem text_eq_shown (e : Expr) : e.text = e.shown := by
  rw [text, writeOnto_node, writeOnto, String.empty_append]

end Expr

end Calculator
