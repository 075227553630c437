import Calculator.Text.Blank
import Mathlib.Data.List.DropRight
/-!
# The blanks at the ends of a text

A text is its trimmed text between two runs of blanks (`exists_trim`), and what stands between two runs of blanks is the
trimmed text if it has no blanks at its own ends (`toList_trim_of_eq`). So the blanks at the ends can be trimmed away step
by step or all at once.
-/

namespace Calculator

variable {s : String} {before after middle : List Char}

def AllBlank (cs : List Char) : Prop := ∀ c ∈ cs, isBlank c = true

instance (cs : List Char) : Decidable (AllBlank cs) := decidable_of_iff (cs.all isBlank = true) List.all_eq_true

/-- Neither the first character nor the last one is blank. -/
structure Trimmed (cs : List Char) : Prop where
  first {c : Char} {rest : List Char} : cs = c :: rest → isBlank c = false
  last {c : Char} {front : List Char} : cs = front ++ [c] → isBlank c = false

theorem AllBlank.append (hbefore : AllBlank before) (hafter : AllBlank after) : AllBlank (before ++ after) :=
  List.forall_mem_append.2 ⟨hbefore, hafter⟩

theorem AllBlank.dropBlanks_eq (h : AllBlank before) : dropBlanks before = [] := by
  apply List.filter_eq_nil_iff.2
  intro c hc
  simp [h c hc]

theorem toList_trim (s : String) : (trim s).toList = (s.toList.dropWhile isBlank).rdropWhile isBlank :=
  String.toList_ofList

theorem trimmed_trim (s : String) : Trimmed (trim s).toList := by
  rw [toList_trim]
  constructor
  · intro c rest hcut
    -- what is left after the second cut begins as what was left after the first
    obtain ⟨more, hmore⟩ : (s.toList.dropWhile isBlank).rdropWhile isBlank <+: s.toList.dropWhile isBlank :=
      List.rdropWhile_prefix ..
    have hnot := List.head?_dropWhile_not isBlank s.toList
    rw [← hmore, hcut] at hnot
    exact hnot
  · intro c front hcut
    have hne : (s.toList.dropWhile isBlank).rdropWhile isBlank ≠ [] := by simp [hcut]
    have hnot := List.rdropWhile_last_not isBlank _ hne
    simpa [hcut] using hnot

/-- A text is its trimmed text between two runs of blanks. -/
theorem exists_trim (s : String) :
    ∃ before after, AllBlank before ∧ AllBlank after ∧ s.toList = before ++ (trim s).toList ++ after := by
  refine ⟨s.toList.takeWhile isBlank, (s.toList.dropWhile isBlank).rtakeWhile isBlank, ?_, ?_, ?_⟩
  · exact fun _ => List.mem_takeWhile_imp
  · exact fun _ => List.mem_rtakeWhile_imp
  · rw [toList_trim, List.append_assoc, List.rdropWhile_append_rtakeWhile, List.takeWhile_append_dropWhile]

theorem mem_of_mem_trim {c : Char} (h : c ∈ (trim s).toList) : c ∈ s.toList := by
  obtain ⟨before, after, -, -, hs⟩ := exists_trim s
  rw [hs]
  simp [h]

/-- Blanks are cut off at the end up to the last character that is none. -/
theorem rdropWhile_append (hafter : AllBlank after) (hmiddle : Trimmed middle) :
    (middle ++ after).rdropWhile isBlank = middle := by
  have hafter' : AllBlank after.reverse := by simpa [AllBlank] using hafter
  rw [List.rdropWhile, List.reverse_append, List.dropWhile_append_of_pos hafter']
  rcases List.eq_nil_or_concat' middle with rfl | ⟨front, c, rfl⟩
  · rfl
  · rw [List.reverse_append, List.reverse_singleton, List.singleton_append,
      List.dropWhile_cons_of_neg (by simp [hmiddle.last rfl]), List.reverse_cons, List.reverse_reverse]

/-- What stands between runs of blanks, with none at its own ends, is the trimmed text. -/
theorem toList_trim_of_eq (hbefore : AllBlank before) (hafter : AllBlank after) (hmiddle : Trimmed middle)
    (h : s.toList = before ++ middle ++ after) : (trim s).toList = middle := by
  rw [toList_trim, h, List.append_assoc, List.dropWhile_append_of_pos hbefore]
  cases middle with
  | nil =>
    rw [List.nil_append, List.dropWhile_eq_nil_iff.2 hafter]
    rfl
  | cons c rest =>
    rw [List.cons_append, List.dropWhile_cons_of_neg (by simp [hmiddle.first rfl]), ← List.cons_append,
      rdropWhile_append hafter hmiddle]

/-- Trimming takes away blanks only. -/
theorem dropBlanks_trim (s : String) : dropBlanks (trim s).toList = dropBlanks s.toList := by
  obtain ⟨before, after, hbefore, hafter, hs⟩ := exists_trim s
  rw [hs, dropBlanks_append, dropBlanks_append, hbefore.dropBlanks_eq, hafter.dropBlanks_eq, List.nil_append,
    List.append_nil]

/-- Blanks behind a text are trimmed away with those at its end. -/
theorem trim_append {s' : String} (h : AllBlank s'.toList) : trim (s ++ s') = trim s := by
  obtain ⟨before, after, hbefore, hafter, hs⟩ := exists_trim s
  apply String.toList_inj.1
  refine toList_trim_of_eq hbefore (hafter.append h) (trimmed_trim s) ?_
  rw [String.toList_append, hs, List.append_assoc]

end Calculator
