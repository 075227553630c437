/-!
# The trace of an evaluation

A trace collects the operations an evaluation carries out, in order, if it was asked for details.
-/

namespace Calculator

structure Step where
  operation : String
  result : Float
  deriving DecidableEq

/-- The steps recorded so far, and whether steps are to be recorded. -/
structure Trace where
  steps : Array Step
  detailed : Bool
  deriving DecidableEq

namespace Trace

def empty (detailed : Bool) : Trace := ⟨#[], detailed⟩

/-- Records a step if details were asked for; the operation's text is only made then. -/
@[macro_inline] def addStep (t : Trace) (operation : String) (result : Float) : Trace :=
  if t.detailed then ⟨t.steps.push ⟨operation, result⟩, true⟩ else t

/-- The trace with further steps, each recorded if details were asked for. -/
def addSteps (t : Trace) (steps : List Step) : Trace :=
  if t.detailed then ⟨t.steps ++ steps.toArray, true⟩ else t

@[simp] theorem addSteps_nil (t : Trace) : t.addSteps [] = t := by
  cases t with | mk steps detailed => cases detailed <;> simp [addSteps]

theorem addSteps_append (t : Trace) (l m : List Step) : t.addSteps (l ++ m) = (t.addSteps l).addSteps m := by
  cases t with | mk steps detailed => cases detailed <;> simp [addSteps, Array.append_assoc]

theorem addStep_eq_addSteps (t : Trace) (operation : String) (result : Float) :
    t.addStep operation result = t.addSteps [⟨operation, result⟩] := by
  cases t with | mk steps detailed => cases detailed <;> simp [addStep, addSteps]

@[simp] theorem detailed_addSteps (t : Trace) (l : List Step) : (t.addSteps l).detailed = t.detailed := by
  cases t with | mk steps detailed => cases detailed <;> rfl

theorem toList_steps_addSteps (t : Trace) (l : List Step) :
    (t.addSteps l).steps.toList = t.steps.toList ++ if t.detailed then l else [] := by
  cases t with | mk steps detailed => cases detailed <;> simp [addSteps]

end Trace

end Calculator
