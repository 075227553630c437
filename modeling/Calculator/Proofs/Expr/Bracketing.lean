import Calculator.Expr.Display
import Calculator.Proofs.Expr.Progress
import Calculator.Proofs.Token.Echoing
/-!
# The text of a tree without its braces

The text of a tree and the echo of its tokens are written by different rules: the one shows a negative number with its
sign, the other a unary minus attached to a number, and the braces around every operation stand in the one alone. Without
them the two are the same. Trees are written here with any brackets around their operations (`Expr.bracketed`); what an
echo writes is settled by the place it starts at, along the derivation of the tokens.

Main statement: `withoutBraces_text`.
-/

namespace Calculator

open Number

/-! ## Trees in brackets -/

namespace Expr

/-- The characters of a tree, with the given ones around every binary operation. -/
def bracketed (opening closing : List Char) : Expr → List Char
  | number x => Number.chars x
  | slot => ['X']
  | group inner => '(' :: (inner.bracketed opening closing ++ [')'])
  | negated inner => '-' :: '(' :: (inner.bracketed opening closing ++ [')'])
  | binary left op right =>
    opening ++ (left.bracketed opening closing ++
      (' ' :: op.symbol :: ' ' :: (right.bracketed opening closing ++ closing)))

/-- The text of a tree has braces. -/
theorem toList_text (e : Expr) : e.text.toList = e.bracketed ['\x7b', ' '] [' ', '\x7d'] := by
  rw [text_eq_shown]
  induction e with
  | number x => rw [shown, bracketed, Number.text, String.toList_ofList]
  | slot => rfl
  | group inner ih => simp [shown, bracketed, ih]
  | negated inner ih => simp [shown, bracketed, ih]
  | binary left op right ihl ihr => simp [shown, bracketed, ihl, ihr, Operator.text]

end Expr

/-- Numbers are printed without spaces and braces. -/
theorem ne_of_mem_chars {x : Float} {c : Char} (hc : c ∈ Number.chars x) : c ≠ ' ' ∧ c ≠ '\x7b' ∧ c ≠ '\x7d' := by
  refine ⟨?_, ?_, ?_⟩
  all_goals
    rintro rfl
    exact absurd (mem_chars hc) (by decide)

/-! ## Without braces -/

/-- The characters without the given pairs of neighbours, which are taken out from left to right. -/
def deletePairs (pairs : List (Char × Char)) : List Char → List Char
  | c :: d :: cs => if (c, d) ∈ pairs then deletePairs pairs cs else c :: deletePairs pairs (d :: cs)
  | cs => cs

/-- An opening brace with the space after it, and a closing brace with the space before it. -/
def spacedBraces : List (Char × Char) := [('\x7b', ' '), (' ', '\x7d')]

/-- The text without its braces and the spaces inside them. -/
def withoutBraces (text : String) : String := String.ofList (deletePairs spacedBraces text.toList)

section Deleting

variable {pairs : List (Char × Char)} {c : Char} {rest : List Char}

theorem deletePairs_cons (h : ∀ d ∈ rest.head?, (c, d) ∉ pairs) :
    deletePairs pairs (c :: rest) = c :: deletePairs pairs rest := by
  cases rest with
  | nil => rfl
  | cons d rest => rw [deletePairs, if_neg (h d rfl)]

theorem deletePairs_append {w : List Char} (h : ∀ c ∈ w, ∀ d, (c, d) ∉ pairs) (rest : List Char) :
    deletePairs pairs (w ++ rest) = w ++ deletePairs pairs rest := by
  induction w with
  | nil => rfl
  | cons c w ih =>
    rw [List.cons_append, deletePairs_cons fun d _ => h c (by simp) d, ih fun c hc => h c (by simp [hc]),
      List.cons_append]

theorem not_mem_spacedBraces (hbrace : c ≠ '\x7b') (hspace : c ≠ ' ') (d : Char) : (c, d) ∉ spacedBraces := by
  simp [spacedBraces, hbrace, hspace]

/-- Only spaces and opening braces begin a pair. -/
theorem deletePairs_cons_of_ne (hbrace : c ≠ '\x7b') (hspace : c ≠ ' ') (rest : List Char) :
    deletePairs spacedBraces (c :: rest) = c :: deletePairs spacedBraces rest :=
  deletePairs_cons fun d _ => not_mem_spacedBraces hbrace hspace d

theorem deletePairs_chars (x : Float) (rest : List Char) :
    deletePairs spacedBraces (Number.chars x ++ rest) = Number.chars x ++ deletePairs spacedBraces rest := by
  refine deletePairs_append ?_ rest
  intro c hc
  obtain ⟨hspace, hbrace, -⟩ := ne_of_mem_chars hc
  exact not_mem_spacedBraces hbrace hspace

end Deleting

/-- No tree begins with a closing brace, so the space before it is not taken out. -/
theorem ne_brace_of_head (e : Expr) (rest : List Char) :
    ∀ d ∈ (e.bracketed ['\x7b', ' '] [' ', '\x7d'] ++ rest).head?, d ≠ '\x7d' := by
  cases e with
  | number x =>
    obtain ⟨c, cs, hchars⟩ := List.exists_cons_of_ne_nil (chars_ne_nil x)
    have hc : c ∈ Number.chars x := by simp [hchars]
    intro d hd
    obtain rfl : c = d := by simpa [Expr.bracketed, hchars] using hd
    exact (ne_of_mem_chars hc).2.2
  | slot | group | negated | binary => simp [Expr.bracketed]

/-- Deleting the braces of a tree leaves the tree without brackets. -/
theorem deletePairs_bracketed (e : Expr) (rest : List Char) :
    deletePairs spacedBraces (e.bracketed ['\x7b', ' '] [' ', '\x7d'] ++ rest) =
      e.bracketed [] [] ++ deletePairs spacedBraces rest := by
  induction e generalizing rest with
  | number x => exact deletePairs_chars x rest
  | slot => exact deletePairs_cons_of_ne (by decide) (by decide) rest
  | group inner ih =>
    simp only [Expr.bracketed, List.cons_append, List.append_assoc, List.nil_append]
    rw [deletePairs_cons_of_ne (by decide) (by decide), ih, deletePairs_cons_of_ne (by decide) (by decide)]
  | negated inner ih =>
    simp only [Expr.bracketed, List.cons_append, List.append_assoc, List.nil_append]
    rw [deletePairs_cons_of_ne (by decide) (by decide), deletePairs_cons_of_ne (by decide) (by decide), ih,
      deletePairs_cons_of_ne (by decide) (by decide)]
  | binary left op right ihl ihr =>
    have hopening (cs : List Char) : deletePairs spacedBraces ('\x7b' :: ' ' :: cs) = deletePairs spacedBraces cs :=
      if_pos (by decide)
    have hclosing (cs : List Char) : deletePairs spacedBraces (' ' :: '\x7d' :: cs) = deletePairs spacedBraces cs :=
      if_pos (by decide)
    have hop : op.symbol ≠ '\x7b' ∧ op.symbol ≠ ' ' ∧ op.symbol ≠ '\x7d' := by cases op <;> decide
    have hbefore (cs : List Char) : deletePairs spacedBraces (' ' :: op.symbol :: cs) =
        ' ' :: op.symbol :: deletePairs spacedBraces cs := by
      rw [deletePairs_cons, deletePairs_cons_of_ne hop.1 hop.2.1]
      simp [spacedBraces, hop.2.2]
    have hafter (cs : List Char) : deletePairs spacedBraces (' ' :: (right.bracketed ['\x7b', ' '] [' ', '\x7d'] ++ cs)) =
        ' ' :: deletePairs spacedBraces (right.bracketed ['\x7b', ' '] [' ', '\x7d'] ++ cs) := by
      apply deletePairs_cons
      intro d hd
      simpa [spacedBraces] using ne_brace_of_head right cs d hd
    simp only [Expr.bracketed, List.cons_append, List.append_assoc, List.nil_append, List.append_nil]
    rw [hopening, ihl, hbefore, hafter, ihr, hclosing]

/-! ## The echo of derived tokens -/

namespace Place

/-- What is written at a place before a token that is no closing parenthesis. -/
def lead (p : Place) : List Char := if p = attached then [] else [' ']

theorem toList_gap (p : Place) {t : Token} (h : t ≠ .rightParen) : (p.gap t).toList = p.lead := by
  unfold gap lead
  by_cases hp : p = attached
  · rw [if_pos (.inl hp), if_pos hp]
    rfl
  · rw [if_neg (by simp [hp, h]), if_neg hp]
    rfl

end Place

section Echo

variable {p : Place} {t : Token} {ts us : List Token} {e : Expr}

theorem toList_echoOnto_cons (p : Place) (t : Token) (ts : List Token) :
    (echoOnto "" p (t :: ts)).toList = (p.gap t).toList ++ (t.text.toList ++ (echoOnto "" (p.after t) ts).toList) := by
  rw [echoOnto, echoOnto_eq]
  simp

theorem toList_echoOnto_append (p : Place) (ts us : List Token) :
    (echoOnto "" p (ts ++ us)).toList = (echoOnto "" p ts).toList ++ (echoOnto "" (ts.foldl Place.after p) us).toList := by
  rw [echoOnto_append, echoOnto_eq, String.toList_append]

/-- After an operand an operator has a space on either side, and a minus there is binary. -/
theorem toList_echoOnto_operator (op : Operator) (us : List Token) :
    (echoOnto "" .operator (.ofOperator op :: us)).toList = ' ' :: op.symbol :: (echoOnto "" .operand us).toList := by
  rw [toList_echoOnto_cons]
  cases op <;> rfl

/-- Where an operand may begin, the echo of derived tokens is their tree without brackets, and an operator may follow. -/
theorem Derives.toList_echoOnto {r : Rank} (h : Derives r ts e) (hts : Written ts) (hp : p ≠ .operator) :
    (echoOnto "" p ts).toList = p.lead ++ e.bracketed [] [] ∧ ts.foldl Place.after p = .operator := by
  induction h generalizing p with
  | number x =>
    refine ⟨?_, rfl⟩
    rw [toList_echoOnto_cons, p.toList_gap (by simp), toList_text_number, Expr.bracketed]
    simp [echoOnto]
  | minusNumber x =>
    obtain ⟨hnan, hsign⟩ := hts x (by simp)
    have hafter : p.after .minus = .attached := if_neg hp
    refine ⟨?_, rfl⟩
    rw [toList_echoOnto_cons, p.toList_gap (by simp), hafter, toList_echoOnto_cons, toList_text_number,
      Expr.bracketed, chars_neg hnan hsign]
    simp [echoOnto, Place.gap, Token.text]
  | @group ts e _ ih =>
    obtain ⟨hecho, hplace⟩ := ih (written_append.1 hts).1.tail (p := .attached) (by simp)
    constructor
    · rw [List.cons_append, toList_echoOnto_cons, p.toList_gap (by simp), Place.after, toList_echoOnto_append, hecho,
        hplace, Expr.bracketed]
      rfl
    · rw [List.cons_append, List.foldl_cons, List.foldl_append, Place.after, hplace]
      rfl
  | @minusGroup ts e _ ih =>
    obtain ⟨hecho, hplace⟩ := ih (written_append.1 hts).1.tail.tail (p := .attached) (by simp)
    have hafter : p.after .minus = .attached := if_neg hp
    constructor
    · rw [List.cons_append, List.cons_append, toList_echoOnto_cons, p.toList_gap (by simp), hafter, toList_echoOnto_cons,
        Place.after, toList_echoOnto_append, hecho, hplace, Expr.bracketed]
      rfl
    · rw [List.cons_append, List.cons_append, List.foldl_cons, hafter, List.foldl_cons, List.foldl_append, Place.after,
        hplace]
      rfl
  | ofOperand _ ih | ofProduct _ ih => exact ih hts hp
  | @product ts us l r op _ _ _ ihl ihr | @sum ts us l r op _ _ _ ihl ihr =>
    obtain ⟨hl, hr⟩ := written_append.1 hts
    obtain ⟨hecho, hplace⟩ := ihl hl hp
    obtain ⟨hecho', hplace'⟩ := ihr hr.tail (p := .operand) (by simp)
    have hafter : Place.after .operator (.ofOperator op) = .operand := by cases op <;> rfl
    constructor
    · rw [toList_echoOnto_append, hecho, hplace, toList_echoOnto_operator, hecho', Expr.bracketed]
      simp [Place.lead]
    · rw [List.foldl_append, hplace, List.foldl_cons, hafter, hplace']

end Echo

/-! ## The main statement -/

/-- The text of the tree that is built of some tokens, with its braces deleted, is the echo of the tokens. -/
theorem withoutBraces_text {tokens : List Token} {tree : Expr} (hne : tokens ≠ []) (hwritten : Written tokens)
    (hbuild : build tokens = .ok tree) : withoutBraces tree.text = echo tokens := by
  obtain ⟨hecho, -⟩ := (derives_of_build hne hbuild).toList_echoOnto hwritten (p := .attached) (by simp)
  have hdeleted := deletePairs_bracketed tree []
  rw [List.append_nil, ← tree.toList_text] at hdeleted
  rw [← String.toList_inj, echo, hecho, withoutBraces, String.toList_ofList, hdeleted]
  simp [deletePairs, Place.lead]

/-- In `2 * -3 - -(4 / 5)` a minus is read in each of its three ways. -/
theorem withoutBraces_three_minuses :
    Written [.number 2, .multiply, .minus, .number 3, .minus, .minus, .leftParen, .number 4, .divide, .number 5,
        .rightParen] ∧
      build [.number 2, .multiply, .minus, .number 3, .minus, .minus, .leftParen, .number 4, .divide, .number 5,
        .rightParen] = .ok (.binary (.binary (.number 2) .multiply (.number (-3))) .minus
          (.negated (.binary (.number 4) .divide (.number 5)))) ∧
      withoutBraces (Expr.binary (.binary (.number 2) .multiply (.number (-3))) .minus
          (.negated (.binary (.number 4) .divide (.number 5)))).text = "2 * -3 - -(4 / 5)" := by
  have hwritten : Written [.number 2, .multiply, .minus, .number 3, .minus, .minus, .leftParen, .number 4, .divide,
      .number 5, .rightParen] := by
    intro x hx
    simp only [List.mem_cons, List.not_mem_nil, Token.number.injEq, reduceCtorEq, false_or, or_false] at hx
    rcases hx with rfl | rfl | rfl | rfl <;> decide
  have hbuild : build [.number 2, .multiply, .minus, .number 3, .minus, .minus, .leftParen, .number 4, .divide, .number 5,
      .rightParen] = .ok (.binary (.binary (.number 2) .multiply (.number (-3))) .minus
        (.negated (.binary (.number 4) .divide (.number 5)))) := rfl
  refine ⟨hwritten, hbuild, ?_⟩
  rw [withoutBraces_text (by simp) hwritten hbuild]
  decide +kernel

end Calculator
