import Calculator.Expr.Partial
import Mathlib.Data.List.Basic
/-!
# Merging folds a chain by precedence

A chain of operands is folded on two levels: it is cut at its loose operators into runs of tight ones, each run is
folded to the left, and then the runs are. A merge never cuts or folds anything by itself. It only closes an operation of
which that fold is already certain (`tree_close`, `tree_close_inner`), so whatever is still to come, the chain that the
partial tree stands for keeps its tree (`tree_merge`). What the operands look like is of no account.

Main statement: `mergeAll_folds_by_precedence`.
-/

namespace Calculator

/-- Operands with an operator between each two: the first, and every further one with the operator before it. -/
structure Chain (α : Type) where
  first : α
  rest : List (Operator × α)

namespace Chain

variable {α β : Type}

def map (f : α → β) (c : Chain α) : Chain β := ⟨f c.first, c.rest.map fun next => (next.1, f next.2)⟩

/-- Every operator takes all that stands before it as its left operand. -/
def leftFold (c : Chain Expr) : Expr := c.rest.foldl (fun left next => .binary left next.1 next.2) c.first

/-! ## Runs of tight operators -/

/-- What still belongs to the run that the operators begin in, and the runs after it. -/
def cut : List (Operator × α) → List (Operator × α) × List (Operator × Chain α)
  | [] => ([], [])
  | (op, x) :: rest =>
    let (run, runs) := cut rest
    if op.isMultiplicative then ((op, x) :: run, runs) else ([], (op, ⟨x, run⟩) :: runs)

/-- The chain cut at its loose operators. -/
def runs (c : Chain α) : Chain (Chain α) := ⟨⟨c.first, (cut c.rest).1⟩, (cut c.rest).2⟩

/-- Runs put together again to one chain. -/
def join (c : Chain (Chain α)) : Chain α :=
  ⟨c.first.first, c.first.rest ++ c.rest.flatMap fun next => (next.1, next.2.first) :: next.2.rest⟩

/-- The runs are those of the chain: nothing is lost, the operators within a run are tight, and those between runs loose. -/
structure IsCut (c : Chain α) (runs : Chain (Chain α)) : Prop where
  join_eq : runs.join = c
  tight_first : ∀ next ∈ runs.first.rest, next.1.isMultiplicative = true
  tight_rest : ∀ run ∈ runs.rest, ∀ next ∈ run.2.rest, next.1.isMultiplicative = true
  loose : ∀ run ∈ runs.rest, run.1.isMultiplicative = false

theorem cut_tight {op : Operator} (h : op.isMultiplicative = true) (x : α) (rest : List (Operator × α)) :
    cut ((op, x) :: rest) = ((op, x) :: (cut rest).1, (cut rest).2) := by
  simp [cut, h]

theorem cut_loose {op : Operator} (h : op.isMultiplicative = false) (x : α) (rest : List (Operator × α)) :
    cut ((op, x) :: rest) = ([], (op, ⟨x, (cut rest).1⟩) :: (cut rest).2) := by
  simp [cut, h]

theorem isCut_runs (c : Chain α) : IsCut c c.runs := by
  obtain ⟨first, rest⟩ := c
  induction rest with
  | nil => exact ⟨rfl, nofun, nofun, nofun⟩
  | cons next rest ih =>
    obtain ⟨op, x⟩ := next
    obtain ⟨hjoin, hfirst, hrest, hloose⟩ := ih
    simp only [runs, join, mk.injEq, true_and] at hjoin hfirst hrest hloose
    cases hop : op.isMultiplicative with
    | true =>
      refine ⟨?_, ?_, ?_, ?_⟩ <;> simp only [runs, join, cut_tight hop]
      · rw [List.cons_append, hjoin]
      · exact List.forall_mem_cons.2 ⟨hop, hfirst⟩
      · exact hrest
      · exact hloose
    | false =>
      refine ⟨?_, ?_, ?_, ?_⟩ <;> simp only [runs, join, cut_loose hop]
      · rw [List.nil_append, List.flatMap_cons, List.cons_append, hjoin]
      · exact nofun
      · exact List.forall_mem_cons.2 ⟨hfirst, hrest⟩
      · exact List.forall_mem_cons.2 ⟨hop, hloose⟩

/-! ## The tree of a chain -/

/-- Each run folded to the left, and then the runs. -/
def tree (c : Chain Expr) : Expr := (c.runs.map leftFold).leftFold

theorem tree_single (x y : Expr) (op : Operator) : tree ⟨x, [(op, y)]⟩ = .binary x op y := by
  cases op <;> rfl

/-- The first two operands may be closed if their operator is tight or a loose one follows. -/
theorem tree_close {op next : Operator} (h : op.isMultiplicative = true ∨ next.isMultiplicative = false) (x y z : Expr)
    (rest : List (Operator × Expr)) :
    tree ⟨x, (op, y) :: (next, z) :: rest⟩ = tree ⟨.binary x op y, (next, z) :: rest⟩ := by
  cases hop : op.isMultiplicative with
  | true =>
    unfold tree runs
    rw [cut_tight hop]
    rfl
  | false =>
    have hnext : next.isMultiplicative = false := by simpa [hop] using h
    unfold tree runs
    rw [cut_loose hop, cut_loose hnext]
    rfl

/-- Behind a loose operator two operands may be closed if theirs is tight. -/
theorem tree_close_inner {root op : Operator} (hroot : root.isMultiplicative = false) (hop : op.isMultiplicative = true)
    (x y z : Expr) (rest : List (Operator × Expr)) :
    tree ⟨x, (root, y) :: (op, z) :: rest⟩ = tree ⟨x, (root, .binary y op z) :: rest⟩ := by
  unfold tree runs
  rw [cut_loose hroot, cut_loose hroot, cut_tight hop]
  rfl

end Chain

namespace PartialTree

open Chain

/-- The latest operator has the slot: it is at the root, or it is tight and was opened below a loose root. -/
inductive SlotAfter : PartialTree → Operator → Prop
  | root (left : Expr) (op : Operator) : SlotAfter ⟨left, op, none⟩ op
  | opened {root op : Operator} (loose : root.isMultiplicative = false) (tight : op.isMultiplicative = true)
      (left middle : Expr) : SlotAfter ⟨left, root, some (middle, op)⟩ op

/-- The chain that a partial tree begins, given what comes from the operator at its slot on. -/
def chain (p : PartialTree) (rest : List (Operator × Expr)) : Chain Expr :=
  match p.opened with
  | none => ⟨p.left, rest⟩
  | some (middle, _) => ⟨p.left, (p.operator, middle) :: rest⟩

variable {p : PartialTree} {op : Operator}

/-! ## One merge -/

/-- The four ways in which a merge rearranges a tree. -/
inductive Merges (x : Expr) (next : Operator) : PartialTree → PartialTree → Prop
  | close (loose : next.isMultiplicative = false) (p : PartialTree) : Merges x next p (start (p.complete x) next)
  | openBelow {root : Operator} (loose : root.isMultiplicative = false) (tight : next.isMultiplicative = true)
      (left : Expr) : Merges x next ⟨left, root, none⟩ ⟨left, root, some (x, next)⟩
  | goOn {root : Operator} (tightRoot : root.isMultiplicative = true) (tight : next.isMultiplicative = true)
      (left : Expr) : Merges x next ⟨left, root, none⟩ (start (.binary left root x) next)
  | goOnBelow (tight : next.isMultiplicative = true) (left middle : Expr) (root op : Operator) :
      Merges x next ⟨left, root, some (middle, op)⟩ ⟨left, root, some (.binary middle op x, next)⟩

theorem merge_cases (p : PartialTree) (x : Expr) (next : Operator) : Merges x next p (p.merge x next) := by
  unfold merge
  cases hnext : next.isMultiplicative with
  | false => exact .close hnext p
  | true =>
    obtain ⟨left, root, _ | ⟨middle, op⟩⟩ := p
    · cases hroot : root.isMultiplicative with
      | false => simpa [hroot] using Merges.openBelow hroot hnext left
      | true => simpa [hroot] using Merges.goOn hroot hnext left
    · simpa using Merges.goOnBelow hnext left middle root op

theorem SlotAfter.merge (h : p.SlotAfter op) (x : Expr) (next : Operator) : (p.merge x next).SlotAfter next := by
  have hmerge := merge_cases p x next
  generalize p.merge x next = q at hmerge
  cases hmerge with
  | close loose p => exact .root _ next
  | openBelow loose tight left => exact .opened loose tight left x
  | goOn tightRoot tight left => exact .root _ next
  | goOnBelow tight left middle root op =>
    cases h with
    | opened loose _ => exact .opened loose tight left _

/-- A merge closes only what the chain closes too, whatever comes next. -/
theorem tree_merge (h : p.SlotAfter op) (x y : Expr) (next : Operator) (rest : List (Operator × Expr)) :
    ((p.merge x next).chain ((next, y) :: rest)).tree = (p.chain ((op, x) :: (next, y) :: rest)).tree := by
  have hmerge := merge_cases p x next
  generalize p.merge x next = q at hmerge
  cases hmerge with
  | close hnext p =>
    cases h with
    | root left => exact (tree_close (.inr hnext) left x y rest).symm
    | @opened root _ loose tight left middle =>
      calc tree ⟨.binary left root (.binary middle op x), (next, y) :: rest⟩
          = tree ⟨left, (root, .binary middle op x) :: (next, y) :: rest⟩ := (tree_close (.inr hnext) ..).symm
        _ = tree ⟨left, (root, middle) :: (op, x) :: (next, y) :: rest⟩ := (tree_close_inner loose tight ..).symm
  -- the operand waits below the root, and the chain is what it was
  | openBelow loose tight left =>
    cases h with
    | root => rfl
  | goOn tightRoot tight left =>
    cases h with
    | root => exact (tree_close (.inl tightRoot) left x y rest).symm
  | goOnBelow tight left middle root =>
    cases h with
    | opened loose tightOp => exact (tree_close_inner loose tightOp left middle x ((next, y) :: rest)).symm

/-- The last operand is put to the right of the latest operator, at the root or one node below it. -/
theorem SlotAfter.complete (h : p.SlotAfter op) :
    (∃ left, ∀ x, p.complete x = .binary left op x) ∨
      ∃ left root middle, ∀ x, p.complete x = .binary left root (.binary middle op x) := by
  cases h with
  | root left => exact .inl ⟨left, fun x => rfl⟩
  | @opened root _ loose tight left middle => exact .inr ⟨left, root, middle, fun x => rfl⟩

theorem tree_complete (h : p.SlotAfter op) (x : Expr) : (p.chain [(op, x)]).tree = p.complete x := by
  cases h with
  | root left => exact tree_single left x op
  | opened loose tight left middle =>
    calc tree ⟨left, [(_, middle), (op, x)]⟩
        = tree ⟨left, [(_, .binary middle op x)]⟩ := tree_close_inner loose tight ..
      _ = .binary left _ (.binary middle op x) := tree_single ..

/-! ## All merges -/

/-- Takes operands one after another, each with the operator after it. -/
def mergeAll (p : PartialTree) (taken : List (Expr × Operator)) : PartialTree :=
  taken.foldl (fun p next => p.merge next.1 next.2) p

/-- The operator that was taken last, after the given one. -/
def latest (op : Operator) (taken : List (Expr × Operator)) : Operator := (taken.map Prod.snd).getLastD op

/-- An operator, the operands and operators taken after it, and the last operand, read as the rest of a chain. -/
def restOfChain (op : Operator) (taken : List (Expr × Operator)) (last : Expr) : List (Operator × Expr) :=
  (op :: taken.map Prod.snd).zip (taken.map Prod.fst ++ [last])

/-- The chain of all operands and operators. -/
def chainOf (first : Expr) (op : Operator) (taken : List (Expr × Operator)) (last : Expr) : Chain Expr :=
  ⟨first, restOfChain op taken last⟩

theorem restOfChain_cons (op next : Operator) (x : Expr) (taken : List (Expr × Operator)) (last : Expr) :
    restOfChain op ((x, next) :: taken) last = (op, x) :: restOfChain next taken last := rfl

theorem exists_restOfChain (op : Operator) (taken : List (Expr × Operator)) (last : Expr) :
    ∃ x rest, restOfChain op taken last = (op, x) :: rest := by
  cases taken with
  | nil => exact ⟨last, [], rfl⟩
  | cons next taken => exact ⟨next.1, restOfChain next.2 taken last, rfl⟩

theorem SlotAfter.mergeAll (h : p.SlotAfter op) (taken : List (Expr × Operator)) :
    (p.mergeAll taken).SlotAfter (latest op taken) := by
  induction taken generalizing p op with
  | nil => exact h
  | cons next taken ih =>
    have hmerged := ih (h.merge next.1 next.2)
    rwa [latest, List.map_cons, List.getLastD_cons]

/-- The finished tree is that of the chain which the partial tree began. -/
theorem complete_mergeAll (h : p.SlotAfter op) (taken : List (Expr × Operator)) (last : Expr) :
    (p.mergeAll taken).complete last = (p.chain (restOfChain op taken last)).tree := by
  induction taken generalizing p op with
  | nil => exact (tree_complete h last).symm
  | cons next taken ih =>
    obtain ⟨x, o⟩ := next
    have hmerged := ih (h.merge x o)
    obtain ⟨y, rest, hrest⟩ := exists_restOfChain o taken last
    rw [restOfChain_cons, hrest, ← tree_merge h, ← hrest]
    exact hmerged

/-- Merging operands and operators one after another and then filling in the last operand folds them by precedence: the
chain is cut at its loose operators, each run is folded to the left, and then the runs are. At any point on the way the
operator taken last has the slot; it is at the root, or it is tight and one node below a loose root. -/
theorem mergeAll_folds_by_precedence (first : Expr) (op : Operator) (taken : List (Expr × Operator)) (last : Expr) :
    IsCut (chainOf first op taken last) (chainOf first op taken last).runs ∧
    ((start first op).mergeAll taken).complete last = ((chainOf first op taken last).runs.map leftFold).leftFold ∧
    ∀ before, before <+: taken →
      let p := (start first op).mergeAll before
      p.SlotAfter (latest op before) ∧ p.toExpr = p.complete .slot ∧
        ((∃ left, ∀ x, p.complete x = .binary left (latest op before) x) ∨
          ∃ left root middle, ∀ x, p.complete x = .binary left root (.binary middle (latest op before) x)) := by
  have hstart : (start first op).SlotAfter op := .root first op
  refine ⟨isCut_runs _, complete_mergeAll hstart taken last, ?_⟩
  intro before _
  have h := hstart.mergeAll before
  exact ⟨h, rfl, h.complete⟩

/-- `1 + 2 / 4 * 2 * 5`: the product opened below the sum goes on to the left. -/
example : ((start (.number 1) .plus).mergeAll [(.number 2, .divide), (.number 4, .multiply), (.number 2, .multiply)]).complete
      (.number 5) =
    .binary (.number 1) .plus (.binary (.binary (.binary (.number 2) .divide (.number 4)) .multiply (.number 2)) .multiply
      (.number 5)) := rfl

end PartialTree

end Calculator
