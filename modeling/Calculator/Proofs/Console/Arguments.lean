import Calculator.Console.Program
import Mathlib.Data.List.Basic
/-!
# The arguments of the program

Flags may stand anywhere among the arguments and as often as one likes: all that counts of them is whether one of a kind
is there. What is left when they are taken away decides what the program does. Nothing makes a session, and a single
argument that is no option is the expression of a calculation (`Asks.read_eq`).
-/

namespace Calculator.Console

/-- A flag that asks for the steps. -/
def isDetailsFlag (arg : String) : Bool := arg = "--details" ∨ arg = "-d"

/-- A flag that asks for the tree. -/
def isTreeFlag (arg : String) : Bool := arg = "--tree" ∨ arg = "-t"

def isFlag (arg : String) : Bool := isDetailsFlag arg || isTreeFlag arg

/-- An argument that is taken for an option, known or not. -/
def OptionLike (arg : String) : Prop := "--".toList <+: arg.toList ∨ arg ∈ ["-d", "-t", "-h"]

instance (arg : String) : Decidable (OptionLike arg) := inferInstanceAs (Decidable (_ ∨ _))

/-- The arguments ask for details and for the tree, or not, and are otherwise those given. -/
structure Asks (args : List String) (details tree : Bool) (others : List String) : Prop where
  details_eq : args.any isDetailsFlag = details
  tree_eq : args.any isTreeFlag = tree
  others_eq : args.filter (fun arg => !isFlag arg) = others

/-! ## One argument -/

theorem isFlag_eq_false_of_not_optionLike {arg : String} (h : ¬ OptionLike arg) : isFlag arg = false := by
  by_contra hflag
  simp only [isFlag, isDetailsFlag, isTreeFlag, Bool.not_eq_false, Bool.or_eq_true, decide_eq_true_eq] at hflag
  rcases hflag with (rfl | rfl) | rfl | rfl <;> exact h (by decide)

theorem read_flag {arg : String} (h : isFlag arg = true) (o : Options) (args : List String) :
    o.read (arg :: args) = Options.read ⟨o.details || isDetailsFlag arg, o.tree || isTreeFlag arg, o.expression⟩ args := by
  obtain ⟨details, tree, expression⟩ := o
  simp only [isFlag, isDetailsFlag, isTreeFlag, Bool.or_eq_true, decide_eq_true_eq] at h
  rcases h with (rfl | rfl) | rfl | rfl <;> simp [Options.read, isDetailsFlag, isTreeFlag]

/-- The first argument that is no option is the expression. -/
theorem read_expression {arg : String} (h : ¬ OptionLike arg) (details tree : Bool) (args : List String) :
    Options.read ⟨details, tree, none⟩ (arg :: args) = Options.read ⟨details, tree, some arg⟩ args := by
  have hne {option : String} (hoption : OptionLike option) : arg ≠ option := by
    rintro rfl
    exact h hoption
  have hdetails : ¬ (arg = "--details" ∨ arg = "-d") := not_or.2 ⟨hne (by decide), hne (by decide)⟩
  have htree : ¬ (arg = "--tree" ∨ arg = "-t") := not_or.2 ⟨hne (by decide), hne (by decide)⟩
  have hhelp : ¬ (arg = "--help" ∨ arg = "-h") := not_or.2 ⟨hne (by decide), hne (by decide)⟩
  have hdashes : ¬ arg.startsWith "--" = true := by
    rw [String.startsWith_string_iff]
    exact fun hprefix => h (.inl hprefix)
  rw [Options.read, if_neg hdetails, if_neg htree, if_neg hhelp, if_neg hdashes]
  rfl

/-! ## All arguments -/

theorem read_flags {args : List String} (h : ∀ arg ∈ args, isFlag arg = true) (o : Options) (rest : List String) :
    o.read (args ++ rest) =
      Options.read ⟨o.details || args.any isDetailsFlag, o.tree || args.any isTreeFlag, o.expression⟩ rest := by
  induction args generalizing o with
  | nil => simp
  | cons arg args ih =>
    obtain ⟨hflag, hflags⟩ := List.forall_mem_cons.1 h
    rw [List.cons_append, read_flag hflag, ih hflags, List.any_cons, List.any_cons, Bool.or_assoc, Bool.or_assoc]

/-- An argument that is no option is found among flags, wherever they stand. -/
theorem read_among_flags {front back : List String} {expression : String}
    (hflags : ∀ arg ∈ front ++ back, isFlag arg = true) (hoption : ¬ OptionLike expression) :
    Options.initial.read (front ++ expression :: back) =
      .calculate ⟨(front ++ back).any isDetailsFlag, (front ++ back).any isTreeFlag, some expression⟩ := by
  obtain ⟨hfront, hback⟩ := List.forall_mem_append.1 hflags
  have hread := read_flags hback ⟨front.any isDetailsFlag, front.any isTreeFlag, some expression⟩ []
  rw [List.append_nil] at hread
  rw [read_flags hfront, Options.initial, Bool.false_or, Bool.false_or, read_expression hoption, hread,
    List.any_append, List.any_append]
  rfl

namespace Asks

variable {args : List String} {details tree : Bool}

/-- Flags alone make a session. -/
theorem read_eq (h : Asks args details tree []) :
    Options.initial.read args = .calculate ⟨details, tree, none⟩ := by
  have hflags : ∀ arg ∈ args, isFlag arg = true := by simpa [List.filter_eq_nil_iff] using h.others_eq
  have hread := read_flags hflags .initial []
  rw [List.append_nil, h.details_eq, h.tree_eq] at hread
  simpa [Options.initial, Options.read] using hread

theorem run_eq (h : Asks args details tree []) : run args = interactive tree := by
  funext stdin
  rw [run, h.read_eq]

/-- Flags and one more argument that is no option make a calculation. -/
theorem read_eq_expression {expression : String} (h : Asks args details tree [expression])
    (hoption : ¬ OptionLike expression) :
    Options.initial.read args = .calculate ⟨details, tree, some expression⟩ := by
  obtain ⟨front, back, rfl, hfront, -, hback⟩ := List.filter_eq_cons_iff.1 h.others_eq
  have hflags : ∀ arg ∈ front ++ back, isFlag arg = true :=
    List.forall_mem_append.2 ⟨by simpa using hfront, by simpa [List.filter_eq_nil_iff] using hback⟩
  have hplain := isFlag_eq_false_of_not_optionLike hoption
  have hdetails := h.details_eq
  have htree := h.tree_eq
  simp only [isFlag, Bool.or_eq_false_iff] at hplain
  rw [List.any_append, List.any_cons, hplain.1, Bool.false_or, ← List.any_append] at hdetails
  rw [List.any_append, List.any_cons, hplain.2, Bool.false_or, ← List.any_append] at htree
  rw [read_among_flags hflags hoption, hdetails, htree]

end Asks

end Calculator.Console
