import Calculator.Console.Program
import Calculator.Proofs.Messages
import Mathlib.Data.List.Basic
/-!
# Reports of failures

A failure is reported line by line. If its message and its causes have no line breaks, the report tells them all
(`report_injective`), so what it lists as the outermost cause is known from its text.
-/

namespace Calculator.Console

/-- The lines with their line breaks. -/
def joinLines : List String → String
  | [] => ""
  | line :: lines => line ++ "\n" ++ joinLines lines

theorem toList_joinLines_cons (line : String) (lines : List String) :
    (joinLines (line :: lines)).toList = line.toList ++ '\n' :: (joinLines lines).toList := by
  rw [joinLines, String.toList_append, String.toList_append, List.append_assoc]
  rfl

/-- Lines can be told apart if no one has a line break of its own. -/
theorem joinLines_injective {lines lines' : List String} (h : ∀ line ∈ lines, SingleLine line)
    (h' : ∀ line ∈ lines', SingleLine line) (heq : joinLines lines = joinLines lines') : lines = lines' := by
  rw [← String.toList_inj] at heq
  induction lines generalizing lines' with
  | nil =>
    cases lines' with
    | nil => rfl
    | cons line' lines' =>
      rw [toList_joinLines_cons] at heq
      simp [joinLines] at heq
  | cons line lines ih =>
    cases lines' with
    | nil =>
      rw [toList_joinLines_cons] at heq
      simp [joinLines] at heq
    | cons line' lines' =>
      obtain ⟨hline, hlines⟩ := List.forall_mem_cons.1 h
      obtain ⟨hline', hlines'⟩ := List.forall_mem_cons.1 h'
      rw [toList_joinLines_cons, toList_joinLines_cons] at heq
      obtain ⟨hfirst, hmore⟩ := cut_at_first hline hline' heq
      rw [String.toList_inj.1 hfirst, ih hlines hlines' hmore]

namespace Failure

/-- The causes with their numbers, from `number` on. -/
def numberedLines (number : Nat) : List String → List String
  | [] => []
  | cause :: causes => ("    " ++ toString number ++ ": " ++ cause) :: numberedLines (number + 1) causes

/-- The lines of a report. -/
def lines (f : Failure) : List String :=
  ("Error: " ++ f.message) ::
    match f.causes with
    | [] => []
    | [cause] => ["", "Caused by:", "    " ++ cause]
    | causes => "" :: "Caused by:" :: numberedLines 0 causes

/-- The message and the causes have no line breaks. -/
structure Plain (f : Failure) : Prop where
  message : SingleLine f.message
  causes : ∀ cause ∈ f.causes, SingleLine cause

variable {f g : Failure} {causes causes' : List String}

theorem joinLines_numberedLines (number : Nat) (causes : List String) :
    joinLines (numberedLines number causes) = numberedCauses number causes := by
  induction causes generalizing number with
  | nil => rfl
  | cons cause causes ih => rw [numberedLines, joinLines, ih, numberedCauses]

theorem report_eq (f : Failure) : f.report = joinLines f.lines := by
  obtain ⟨message, causes⟩ := f
  rcases causes with _ | ⟨cause, _ | ⟨cause', causes⟩⟩
  · rfl
  · simp [report, lines, joinLines, String.append_assoc, ← String.toList_inj]
  · simp [report, lines, joinLines, joinLines_numberedLines, String.append_assoc, ← String.toList_inj]

theorem singleLine_numberedLines (h : ∀ cause ∈ causes, SingleLine cause) (number : Nat) :
    ∀ line ∈ numberedLines number causes, SingleLine line := by
  induction causes generalizing number with
  | nil => nofun
  | cons cause causes ih =>
    obtain ⟨hcause, hcauses⟩ := List.forall_mem_cons.1 h
    have hindent : SingleLine "    " := by decide
    have hcolon : SingleLine ": " := by decide
    have hnumber := singleLine_toString number
    exact List.forall_mem_cons.2 ⟨((hindent.append hnumber).append hcolon).append hcause, ih hcauses _⟩

theorem Plain.singleLine_lines (h : f.Plain) : ∀ line ∈ f.lines, SingleLine line := by
  obtain ⟨message, causes⟩ := f
  have hfirst : SingleLine ("Error: " ++ message) := SingleLine.append (by decide) h.message
  have hnumbered := singleLine_numberedLines h.causes 0
  have hempty : SingleLine "" := by decide
  have hcaused : SingleLine "Caused by:" := by decide
  rcases causes with _ | ⟨cause, _ | ⟨cause', causes⟩⟩
  · simpa [lines] using hfirst
  · have hcause : SingleLine ("    " ++ cause) := SingleLine.append (by decide) (h.causes cause (by simp))
    simp [lines, hfirst, hempty, hcaused, hcause]
  · have hlisted := List.forall_mem_cons.2 ⟨hcaused, hnumbered⟩
    exact List.forall_mem_cons.2 ⟨hfirst, List.forall_mem_cons.2 ⟨hempty, hlisted⟩⟩

theorem numberedLines_injective {number : Nat} (h : numberedLines number causes = numberedLines number causes') :
    causes = causes' := by
  induction causes generalizing number causes' with
  | nil => cases causes' <;> simp_all [numberedLines]
  | cons cause causes ih =>
    cases causes' with
    | nil => cases h
    | cons cause' causes' =>
      rw [numberedLines, numberedLines, List.cons.injEq, String.append_right_inj] at h
      rw [h.1, ih h.2]

theorem lines_injective (h : f.lines = g.lines) : f = g := by
  obtain ⟨message, causes⟩ := f
  obtain ⟨message', causes'⟩ := g
  rw [lines, lines, List.cons.injEq, String.append_right_inj] at h
  obtain ⟨rfl, h⟩ := h
  -- the number of lines tells none, one and several causes apart
  rcases causes with _ | ⟨cause, _ | ⟨cause₁, causes⟩⟩ <;>
    rcases causes' with _ | ⟨cause', _ | ⟨cause₁', causes'⟩⟩
  · rfl
  · cases h
  · cases h
  · cases h
  · simpa using h
  · simp [numberedLines] at h
  · cases h
  · simp [numberedLines] at h
  · simp only [List.cons.injEq, true_and] at h
    rw [numberedLines_injective h]

/-- A report without stray line breaks tells the failure. -/
theorem report_injective (hf : f.Plain) (hg : g.Plain) (h : f.report = g.report) : f = g := by
  rw [report_eq, report_eq] at h
  exact lines_injective (joinLines_injective hf.singleLine_lines hg.singleLine_lines h)

end Failure

/-- What was written is the report of a failure, and this is the outermost of its causes. -/
def ListsCause (written cause : String) : Prop :=
  ∃ f : Failure, f.Plain ∧ written = f.report ∧ f.causes.head? = some cause

theorem listsCause_report_iff {f : Failure} (h : f.Plain) {cause : String} :
    ListsCause f.report cause ↔ f.causes.head? = some cause := by
  constructor
  · rintro ⟨g, hg, hreport, hcause⟩
    rwa [Failure.report_injective h hg hreport]
  · exact fun hcause => ⟨f, h, rfl, hcause⟩

end Calculator.Console
