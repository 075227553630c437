import Calculator.Console.Session
import Calculator.Proofs.Messages
import Calculator.Proofs.Text.Trimming
/-!
# The lines of the input

Bytes are cut behind every newline, in one way only (`cutInto_iff`), and what is cut off does not depend on what follows
it (`cutLines_append`). A line whose bytes are a text has no line break in it once it is trimmed
(`singleLine_of_decodes`), and the bytes of a text without line breaks are one line (`newline_not_mem_utf8`).
-/

namespace Calculator.Console

variable {line bytes : List UInt8} {lines : List (List UInt8)}

/-! ## Cutting -/

/-- A line with the newline that ends it, the only one in it. -/
def Whole (line : List UInt8) : Prop := ∃ body, newline ∉ body ∧ line = body ++ [newline]

/-- The lines of some bytes, in order. All are whole but the last, which may lack its newline, and none is empty. -/
inductive CutInto : List UInt8 → List (List UInt8) → Prop where
  | nil : CutInto [] []
  | unended {line : List UInt8} (filled : line ≠ []) (unended : newline ∉ line) : CutInto line [line]
  | whole {line bytes : List UInt8} {lines : List (List UInt8)} (whole : Whole line) (rest : CutInto bytes lines) :
      CutInto (line ++ bytes) (line :: lines)

theorem cutLines_newline (bytes : List UInt8) : cutLines (newline :: bytes) = [newline] :: cutLines bytes := by
  rw [cutLines, List.foldr_cons, if_pos rfl]
  rfl

theorem cutLines_cons {b : UInt8} (h : b ≠ newline) (bytes : List UInt8) :
    cutLines (b :: bytes) = match cutLines bytes with
      | [] => [[b]]
      | line :: lines => (b :: line) :: lines := by
  rw [cutLines, List.foldr_cons, if_neg h]
  rfl

theorem cutInto_cutLines (bytes : List UInt8) : CutInto bytes (cutLines bytes) := by
  induction bytes with
  | nil => exact .nil
  | cons b bytes ih =>
    by_cases hb : b = newline
    · subst hb
      rw [cutLines_newline]
      exact .whole ⟨[], by simp, rfl⟩ ih
    · rw [cutLines_cons hb]
      generalize cutLines bytes = lines at ih
      cases ih with
      | nil => exact .unended (by simp) (by simpa using Ne.symm hb)
      | unended filled unended => exact .unended (by simp) (by simp [Ne.symm hb, unended])
      | whole whole rest =>
        obtain ⟨body, hbody, rfl⟩ := whole
        exact .whole ⟨b :: body, by simp [Ne.symm hb, hbody], rfl⟩ rest

/-- A whole line is cut off whatever follows it. -/
theorem cutLines_whole (h : Whole line) (bytes : List UInt8) : cutLines (line ++ bytes) = line :: cutLines bytes := by
  obtain ⟨body, hbody, rfl⟩ := h
  induction body with
  | nil => exact cutLines_newline bytes
  | cons b body ih =>
    obtain ⟨hb, hbody⟩ := not_or.1 (List.mem_cons.not.1 hbody)
    rw [List.cons_append, List.cons_append, cutLines_cons (Ne.symm hb), ih hbody]

theorem cutLines_unended (hne : line ≠ []) (h : newline ∉ line) : cutLines line = [line] := by
  induction line with
  | nil => exact absurd rfl hne
  | cons b line ih =>
    obtain ⟨hb, hline⟩ := not_or.1 (List.mem_cons.not.1 h)
    rw [cutLines_cons (Ne.symm hb)]
    cases line with
    | nil => rfl
    | cons c line => rw [ih (by simp) hline]

/-- There is one way to cut bytes into lines. -/
theorem cutInto_iff : CutInto bytes lines ↔ cutLines bytes = lines := by
  constructor
  · intro h
    induction h with
    | nil => rfl
    | unended filled unended => exact cutLines_unended filled unended
    | whole whole _ ih => rw [cutLines_whole whole, ih]
  · rintro rfl
    exact cutInto_cutLines bytes

/-- Whole lines are cut off whatever follows them. -/
theorem cutLines_append (h : ∀ line ∈ lines, Whole line) (bytes : List UInt8) :
    cutLines (lines.flatten ++ bytes) = lines ++ cutLines bytes := by
  induction lines with
  | nil => rfl
  | cons line lines ih =>
    obtain ⟨hline, hlines⟩ := List.forall_mem_cons.1 h
    rw [List.flatten_cons, List.append_assoc, cutLines_whole hline, ih hlines, List.cons_append]

/-- All lines before another one are whole. -/
theorem CutInto.whole_of_append {before after : List (List UInt8)} (h : CutInto bytes (before ++ line :: after)) :
    ∀ line ∈ before, Whole line := by
  induction before generalizing bytes with
  | nil => nofun
  | cons first before ih =>
    rw [List.cons_append] at h
    generalize hrest : before ++ line :: after = rest at h
    cases h with
    | unended => simp at hrest
    | whole whole rest =>
      subst hrest
      exact List.forall_mem_cons.2 ⟨whole, ih rest⟩

/-- A line has at most one newline, at its end. -/
theorem CutInto.of_mem (h : CutInto bytes lines) (hline : line ∈ lines) : Whole line ∨ newline ∉ line := by
  induction h with
  | nil => cases hline
  | unended _ unended =>
    obtain rfl := List.mem_singleton.1 hline
    exact .inr unended
  | whole whole _ ih =>
    rcases List.mem_cons.1 hline with rfl | hline
    · exact .inl whole
    · exact ih hline

/-! ## The text of a line -/

/-- The bytes are the text in UTF-8. -/
def Decodes (line : List UInt8) (text : String) : Prop := String.fromUTF8? ⟨line.toArray⟩ = some text

/-- The text in UTF-8. -/
def utf8 (text : String) : List UInt8 := text.toUTF8.data.toList

theorem decodes_utf8 (text : String) : Decodes (utf8 text) text := by
  unfold Decodes String.fromUTF8?
  exact dif_pos text.isValidUTF8

theorem decodes_iff {text : String} : Decodes line text ↔ line = utf8 text := by
  constructor
  · intro h
    unfold Decodes String.fromUTF8? at h
    split at h
    · cases h
      rfl
    · cases h
  · rintro rfl
    exact decodes_utf8 text

theorem utf8_append (text text' : String) : utf8 (text ++ text') = utf8 text ++ utf8 text' := by
  simp [utf8, String.toUTF8_eq_toByteArray]

theorem utf8_newline : utf8 "\n" = [newline] := by decide

theorem utf8_ne_nil {text : String} (h : text ≠ "") : utf8 text ≠ [] := by
  intro hnil
  have hempty : Decodes (utf8 text) "" := decodes_iff.2 hnil
  exact h (Option.some.inj ((decodes_utf8 text).symm.trans hempty))

/-- A line break in a text is a newline among its bytes. -/
theorem utf8_of_line_break {text : String} {before after : List Char} (h : text.toList = before ++ '\n' :: after) :
    utf8 text = utf8 (String.ofList before) ++ newline :: utf8 (String.ofList after) := by
  have htext : text = String.ofList before ++ "\n" ++ String.ofList after := by
    apply String.toList_inj.1
    simp [h]
  rw [htext, utf8_append, utf8_append, utf8_newline, List.append_assoc, List.singleton_append]

/-- A byte with its high bit set is no newline. -/
theorem newline_ne_or {b high : UInt8} (h : high.toNat.testBit 7 = true) : newline ≠ b ||| high := by
  intro heq
  have hbit := congrArg (fun b => b.toNat.testBit 7) heq
  have hnewline : newline.toNat.testBit 7 = false := by decide
  simp only [UInt8.toNat_or, Nat.testBit_or, h, Bool.or_true, hnewline] at hbit
  cases hbit

/-- A newline among the bytes of a character is a line break. The bytes of a longer character have their high bits set. -/
theorem eq_line_break_of_newline_mem {c : Char} (h : newline ∈ String.utf8EncodeChar c) : c = '\n' := by
  obtain hsize | hsize | hsize | hsize := c.utf8Size_eq
  · rw [String.utf8EncodeChar_eq_singleton hsize, List.mem_singleton] at h
    have hsmall : c.val.toNat ≤ 127 := UInt32.le_iff_toNat_le.1 (Char.utf8Size_eq_one_iff.1 hsize)
    have hbyte : 10 = c.val.toNat % 256 := congrArg UInt8.toNat h
    have hval : c.val.toNat = 10 := by omega
    exact Char.ext (UInt32.toNat_inj.1 hval)
  · rw [String.utf8EncodeChar_eq_cons_cons hsize] at h
    simp (disch := decide) only [List.mem_cons, newline_ne_or, List.not_mem_nil, or_false] at h
  · rw [String.utf8EncodeChar_eq_cons_cons_cons hsize] at h
    simp (disch := decide) only [List.mem_cons, newline_ne_or, List.not_mem_nil, or_false] at h
  · rw [String.utf8EncodeChar_eq_cons_cons_cons_cons hsize] at h
    simp (disch := decide) only [List.mem_cons, newline_ne_or, List.not_mem_nil, or_false] at h

theorem utf8_ofList (cs : List Char) : utf8 (String.ofList cs) = cs.flatMap String.utf8EncodeChar :=
  List.toList_data_toByteArray

/-- A text without line breaks has no newline among its bytes. -/
theorem newline_not_mem_utf8 {text : String} (h : SingleLine text) : newline ∉ utf8 text := by
  rw [← String.ofList_toList (s := text), utf8_ofList, List.mem_flatMap]
  rintro ⟨c, hc, hmem⟩
  exact h (eq_line_break_of_newline_mem hmem ▸ hc)

/-- A line is a text without line breaks, but for one at its very end. -/
theorem after_line_break {text : String} {before after : List Char} (hline : Whole line ∨ newline ∉ line)
    (htext : Decodes line text) (h : text.toList = before ++ '\n' :: after) : after = [] := by
  have hbytes := (decodes_iff.1 htext).trans (utf8_of_line_break h)
  rcases hline with ⟨body, hbody, rfl⟩ | hline
  · by_contra hafter
    have hmore : utf8 (String.ofList after) ≠ [] := utf8_ne_nil (by simpa using hafter)
    -- the newline at the end of the line is not the one in the text, which is then in the body
    obtain ⟨front, last, hlast⟩ := (List.eq_nil_or_concat' _).resolve_left hmore
    rw [hlast, ← List.cons_append, ← List.append_assoc] at hbytes
    have hcut := List.append_inj_left' hbytes rfl
    exact hbody (by simp [hcut])
  · exact absurd (by simp [hbytes]) hline

/-- A line has no line breaks once it is trimmed. -/
theorem singleLine_of_decodes {text : String} (hline : Whole line ∨ newline ∉ line) (htext : Decodes line text) :
    SingleLine (trim text) := by
  intro hmem
  obtain ⟨before, after, -, -, htrim⟩ := exists_trim text
  obtain ⟨front, back, hcut⟩ := List.append_of_mem hmem
  have hback : back ++ after = [] := by
    have hbreak : text.toList = (before ++ front) ++ '\n' :: (back ++ after) := by
      rw [htrim, hcut]
      simp
    exact after_line_break hline htext hbreak
  obtain rfl : back = [] := (List.append_eq_nil_iff.1 hback).1
  exact ne_newline_of_isBlank ((trimmed_trim text).last hcut) rfl

end Calculator.Console
