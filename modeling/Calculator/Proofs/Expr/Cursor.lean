import Calculator.Expr.Grammar
import Calculator.Proofs.Token.Matching
/-!
# Reading an expression token by token

Whether tokens can begin an expression is settled one token at a time, by what is expected next and by the number of open
groups. A cursor keeps track of both. It reads every derived expression (`Derives.reads`), so tokens it cannot read begin
none, and it opens and closes groups as the search for the end of a group does (`closeFrom_of_reads`, `opened_of_reads`).
-/

namespace Calculator

/-- What may come next in an expression. -/
inductive Expected where
  /-- The first operand of a group or of the whole. -/
  | first
  /-- The operand after an operator. -/
  | operand
  /-- A number or a group, after a unary minus. -/
  | unsigned
  /-- An operator, or the end of a group, after an operand. -/
  | operator
  deriving Repr, DecidableEq

/-- A place in an expression: what is expected there, and how many groups are open. -/
structure Cursor where
  expected : Expected
  opened : Nat
  deriving Repr, DecidableEq

namespace Cursor

/-- The place behind a token, if the token may come next. -/
def read (c : Cursor) : Token → Option Cursor
  | .number _ => if c.expected = .operator then none else some ⟨.operator, c.opened⟩
  | .leftParen => if c.expected = .operator then none else some ⟨.first, c.opened + 1⟩
  | .rightParen => if c.expected = .operator ∧ 0 < c.opened then some ⟨.operator, c.opened - 1⟩ else none
  | .minus =>
    match c.expected with
    | .first | .operand => some ⟨.unsigned, c.opened⟩
    | .unsigned => none
    | .operator => some ⟨.operand, c.opened⟩
  | .plus | .multiply | .divide => if c.expected = .operator then some ⟨.operand, c.opened⟩ else none

def reads (c : Cursor) (ts : List Token) : Option Cursor := ts.foldlM read c

variable {c c' : Cursor} {t : Token} {ts us : List Token}

theorem reads_cons (c : Cursor) (t : Token) (ts : List Token) : c.reads (t :: ts) = (c.read t).bind fun c => c.reads ts :=
  rfl

theorem reads_append (c : Cursor) (ts us : List Token) : c.reads (ts ++ us) = (c.reads ts).bind fun c => c.reads us :=
  List.foldlM_append

theorem reads_concat (h : c.reads ts = some c') (t : Token) : c.reads (ts ++ [t]) = c'.read t := by
  rw [reads_append, h, Option.bind_some, reads_cons]
  cases c'.read t <;> rfl

/-- Nothing is read behind a token that cannot be read. -/
theorem reads_eq_none (h : c.reads ts = some c') (ht : c'.read t = none) (us : List Token) :
    c.reads (ts ++ t :: us) = none := by
  rw [reads_append, h, Option.bind_some, reads_cons, ht, Option.bind_none]

theorem read_ofOperator (op : Operator) (opened : Nat) :
    read ⟨.operator, opened⟩ (.ofOperator op) = some ⟨.operand, opened⟩ := by
  cases op <;> rfl

end Cursor

open Cursor

/-! ## Derived tokens are read -/

/-- Where an operand may begin, any derived tokens are read, up to where an operator may come. -/
theorem Derives.reads {r : Rank} {ts : List Token} {e : Expr} (h : Derives r ts e) {c : Cursor}
    (hc : c.expected = .first ∨ c.expected = .operand) : c.reads ts = some ⟨.operator, c.opened⟩ := by
  obtain ⟨expected, opened⟩ := c
  induction h generalizing expected opened with
  | number x => rcases hc with rfl | rfl <;> rfl
  | minusNumber x => rcases hc with rfl | rfl <;> rfl
  | @group ts e _ ih =>
    have hinner := ih .first (opened + 1) (.inl rfl)
    have hclose := reads_concat hinner .rightParen
    rcases hc with rfl | rfl <;> exact hclose
  | @minusGroup ts e _ ih =>
    have hinner := ih .first (opened + 1) (.inl rfl)
    have hclose := reads_concat hinner .rightParen
    rcases hc with rfl | rfl <;> exact hclose
  | ofOperand _ ih | ofProduct _ ih => exact ih expected opened hc
  | product op _ _ _ ihl ihr | sum op _ _ _ ihl ihr =>
    rw [reads_append, ihl expected opened hc, Option.bind_some, reads_cons, read_ofOperator, Option.bind_some]
    exact ihr .operand opened (.inr rfl)

/-! ## Open groups -/

/-- A search for the end of a group passes over a token that a cursor reads. -/
theorem closeFrom_of_read {c c' : Cursor} {t : Token} (h : c.read t = some c') (index : Nat) (rest : List Token) :
    closeFrom index c.opened (t :: rest) = closeFrom (index + 1) c'.opened rest := by
  obtain ⟨expected, opened⟩ := c
  cases t with
  | leftParen =>
    simp only [Cursor.read] at h
    split at h <;> cases h
    rw [closeFrom]
  | rightParen =>
    simp only [Cursor.read] at h
    split at h
    · next hopen =>
      cases h
      obtain ⟨n, rfl⟩ : ∃ n, opened = n + 1 := Nat.exists_eq_succ_of_ne_zero (Nat.ne_of_gt hopen.2)
      rfl
    · cases h
  | number x | plus | minus | multiply | divide =>
    simp only [Cursor.read] at h
    rw [closeFrom_cons_of_ne (by simp) (by simp)]
    split at h <;> cases h <;> rfl

/-- It passes over all that a cursor reads, with as many groups left to be closed. -/
theorem closeFrom_of_reads {c c' : Cursor} {ts : List Token} (h : c.reads ts = some c') (index : Nat)
    (rest : List Token) : closeFrom index c.opened (ts ++ rest) = closeFrom (index + ts.length) c'.opened rest := by
  induction ts generalizing c index with
  | nil =>
    cases h
    rfl
  | cons t ts ih =>
    obtain ⟨next, hread, hrest⟩ := Option.bind_eq_some_iff.1 h
    have hlength : index + (t :: ts).length = index + 1 + ts.length := by simp only [List.length_cons]; omega
    rw [List.cons_append, closeFrom_of_read hread, ih hrest, hlength]

theorem opened_of_read {c c' : Cursor} {t : Token} (h : c.read t = some c') :
    c'.opened + [t].count .rightParen = c.opened + [t].count .leftParen := by
  obtain ⟨expected, opened⟩ := c
  cases t with
  | rightParen =>
    simp only [Cursor.read] at h
    split at h
    · next hopen =>
      cases h
      exact Nat.sub_add_cancel hopen.2
    · cases h
  | leftParen | number x | plus | minus | multiply | divide =>
    simp only [Cursor.read] at h
    split at h <;> cases h <;> rfl

/-- The groups left open are those opened less those closed. -/
theorem opened_of_reads {c c' : Cursor} {ts : List Token} (h : c.reads ts = some c') :
    c'.opened + ts.count .rightParen = c.opened + ts.count .leftParen := by
  induction ts generalizing c with
  | nil =>
    cases h
    rfl
  | cons t ts ih =>
    obtain ⟨next, hread, hrest⟩ := Option.bind_eq_some_iff.1 h
    have hfirst := opened_of_read hread
    have hmore := ih hrest
    rw [← List.singleton_append, List.count_append, List.count_append]
    omega

end Calculator
