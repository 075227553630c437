import Calculator.Proofs.Console.Arguments
import Calculator.Proofs.Console.Lines
import Calculator.Proofs.Console.Rendering
import Mathlib.Data.List.Forall2
/-!
# Conversations

A session takes its input line by line. It answers a line for what the line says and then forgets it, so its output is the
banner and then a prompt and a reply for each line (`session_answered`), up to the first line that ends it
(`exists_ends`). Nothing passes from one line to the next.

Main statement: `isConversation_run`.
-/

namespace Calculator.Console

variable {tree : Bool} {text : String} {line : List UInt8}

/-! ## Quit words -/

/-- A quit word, each letter of it in either case. -/
def IsQuitWord (text : String) : Prop :=
  ∃ word ∈ ["q", "quit", "exit"],
    List.Forall₂ (fun c letter => c = letter ∨ c = letter.toUpper) text.toList word.toList

/-- The lower case of an upper case letter comes 32 characters after it. -/
theorem toNat_toLower (c : Char) :
    c.toLower.toNat = if 65 ≤ c.toNat ∧ c.toNat ≤ 90 then c.toNat + 32 else c.toNat := by
  unfold Char.toLower
  split
  · next h =>
    have hrange : 65 ≤ c.toNat ∧ c.toNat ≤ 90 := h
    have hsum : (c.val + 32).toNat = (c.toNat + 32) % 2 ^ 32 := UInt32.toNat_add c.val 32
    rw [if_pos hrange]
    exact hsum.trans (by omega)
  · next h => exact (if_neg h).symm

/-- The upper case of a lower case letter comes 32 characters before it. -/
theorem toNat_toUpper (c : Char) :
    c.toUpper.toNat = if 97 ≤ c.toNat ∧ c.toNat ≤ 122 then c.toNat - 32 else c.toNat := by
  unfold Char.toUpper
  split
  · next h =>
    have hrange : 97 ≤ c.toNat ∧ c.toNat ≤ 122 := h
    have hsum : (c.val + (65 - 97)).toNat = (c.toNat + (2 ^ 32 - 32)) % 2 ^ 32 := UInt32.toNat_add c.val _
    rw [if_pos hrange]
    exact hsum.trans (by omega)
  · next h => exact (if_neg h).symm

/-- What has a letter as its lower case is the letter or its upper case. -/
theorem toLower_eq_iff {c letter : Char} (h : letter.isLower = true) :
    c.toLower = letter ↔ c = letter ∨ c = letter.toUpper := by
  obtain ⟨hlow, hhigh⟩ := Bool.and_eq_true_iff.1 h
  have hletter : 97 ≤ letter.toNat ∧ letter.toNat ≤ 122 := ⟨of_decide_eq_true hlow, of_decide_eq_true hhigh⟩
  simp only [← Char.toNat_inj, toNat_toLower, toNat_toUpper, if_pos hletter]
  split <;> omega

theorem map_toLower_eq_iff {cs letters : List Char} (h : letters.all Char.isLower = true) :
    cs.map Char.toLower = letters ↔ List.Forall₂ (fun c letter => c = letter ∨ c = letter.toUpper) cs letters := by
  induction cs generalizing letters with
  | nil => rw [List.map_nil, List.forall₂_nil_left_iff, eq_comm]
  | cons c cs ih =>
    cases letters with
    | nil => simp
    | cons letter letters =>
      obtain ⟨hletter, hletters⟩ := Bool.and_eq_true_iff.1 (List.all_cons ▸ h)
      rw [List.map_cons, List.cons.injEq, List.forall₂_cons, toLower_eq_iff hletter, ih hletters]

theorem isQuit_iff : isQuit text = true ↔ IsQuitWord text := by
  have hlower : ∀ word ∈ ["q", "quit", "exit"], word.toList.all Char.isLower = true := by decide
  rw [isQuit, List.contains_iff_mem]
  constructor
  · intro h
    exact ⟨_, h, (map_toLower_eq_iff (hlower _ h)).1 String.toList_ofList.symm⟩
  · rintro ⟨word, hmem, h⟩
    rwa [(map_toLower_eq_iff (hlower word hmem)).2 h, String.ofList_toList]

/-! ## What a line carries -/

/-- The line is a text, which is this one between blanks. -/
def Carries (line : List UInt8) (text : String) : Prop := ∃ raw, Decodes line raw ∧ trim raw = text

/-- The line is no text. -/
def Unreadable (line : List UInt8) : Prop := ∀ raw, ¬ Decodes line raw

theorem carries_or_unreadable (line : List UInt8) : (∃ text, Carries line text) ∨ Unreadable line := by
  by_cases h : ∃ raw, Decodes line raw
  · obtain ⟨raw, hraw⟩ := h
    exact .inl ⟨trim raw, raw, hraw, rfl⟩
  · exact .inr (not_exists.1 h)

/-- What a session says to a text, if it goes on. -/
def replyText (tree : Bool) (text : String) : String :=
  if text = "" then "" else answer (splitDetails text).1 tree (splitDetails text).2

theorem not_isQuitWord_empty : ¬ IsQuitWord "" := by
  rintro ⟨word, hword, h⟩
  rw [String.toList_empty, List.forall₂_nil_left_iff] at h
  revert hword
  simp [String.toList_eq_nil_iff.1 h]

theorem reply_of_decodes {raw : String} (h : Decodes line raw) : reply tree line = replyTo tree raw := by
  have hsome : String.fromUTF8? ⟨line.toArray⟩ = some raw := h
  rw [reply, hsome]

theorem reply_of_carries (h : Carries line text) (hquit : ¬ IsQuitWord text) :
    reply tree line = .next (replyText tree text) := by
  obtain ⟨raw, hraw, rfl⟩ := h
  rw [reply_of_decodes hraw, replyTo, replyText]
  by_cases hempty : trim raw = ""
  · rw [if_pos (by simp [hempty]), if_pos hempty]
  · rw [if_neg (by simpa using hempty), if_neg (isQuit_iff.not.2 hquit), if_neg hempty]

theorem reply_of_quit (h : Carries line text) (hquit : IsQuitWord text) :
    reply tree line = .last ⟨0, farewell, ""⟩ := by
  obtain ⟨raw, hraw, rfl⟩ := h
  have hfilled : trim raw ≠ "" := fun hempty => not_isQuitWord_empty (hempty ▸ hquit)
  rw [reply_of_decodes hraw, replyTo, if_neg (by simpa using hfilled), if_pos (isQuit_iff.2 hquit)]

theorem reply_of_unreadable (h : Unreadable line) : reply tree line = .last (unreadableInput.outcome "") := by
  have hnone : String.fromUTF8? ⟨line.toArray⟩ = none := Option.eq_none_iff_forall_ne_some.2 h
  rw [reply, hnone]

/-! ## Replies -/

/-- What a reply to a text is: nothing to a blank line, else a report or one line with an error. -/
inductive IsReply (tree : Bool) (text : String) : String → Prop where
  | blank (empty : text = "") : IsReply tree text ""
  | report {output : String} (filled : text ≠ "")
      (result : render (splitDetails text).2 (splitDetails text).1 tree = .ok output) : IsReply tree text ("  " ++ output)
  | error {e : CalcError} (filled : text ≠ "")
      (result : render (splitDetails text).2 (splitDetails text).1 tree = .error e)
      (single : SingleLine ("  " ++ (splitDetails text).2 ++ " = Error: " ++ e.message)) :
      IsReply tree text ("  " ++ (splitDetails text).2 ++ " = Error: " ++ e.message ++ "\n")

theorem singleLine_splitDetails (h : SingleLine text) : SingleLine (splitDetails text).2 := by
  unfold splitDetails
  split
  · intro hmem
    have hdropped := mem_of_mem_trim hmem
    rw [String.toList_ofList] at hdropped
    exact h (List.mem_of_mem_drop hdropped)
  · exact h

theorem isReply_replyText (tree : Bool) (h : SingleLine text) : IsReply tree text (replyText tree text) := by
  unfold replyText
  split
  · next hempty => exact .blank hempty
  · next hfilled =>
    unfold answer
    cases hrender : render (splitDetails text).2 (splitDetails text).1 tree with
    | ok output => exact .report hfilled hrender
    | error e =>
      obtain ⟨hmessage, -⟩ := singleLine_of_runCalculation (error_of_render hrender)
      have hspaces : SingleLine "  " := by decide
      have hword : SingleLine " = Error: " := by decide
      exact .error hfilled hrender (((hspaces.append (singleLine_splitDetails h)).append hword).append hmessage)

/-! ## Sessions -/

/-- The lines say these texts, none of which ends a session. -/
def Answered (lines : List (List UInt8)) (texts : List String) : Prop :=
  List.Forall₂ (fun line text => Carries line text ∧ ¬ IsQuitWord text) lines texts

/-- What a session writes for lines that say these texts. -/
def exchanged (tree : Bool) : List String → String
  | [] => ""
  | text :: texts => prompt ++ replyText tree text ++ exchanged tree texts

/-- How a session ends that has written `written` and comes to the rest of its lines. -/
inductive Ends (written : String) : List (List UInt8) → Outcome → Prop where
  | endOfInput : Ends written [] ⟨0, written ++ prompt, ""⟩
  | quit {line : List UInt8} {after : List (List UInt8)} {text : String} (carries : Carries line text)
      (quit : IsQuitWord text) : Ends written (line :: after) ⟨0, written ++ prompt ++ farewell, ""⟩
  | unreadable {line : List UInt8} {after : List (List UInt8)} (unreadable : Unreadable line) :
      Ends written (line :: after) ⟨1, written ++ prompt, unreadableInput.report⟩

variable {answered rest before after : List (List UInt8)} {texts : List String}

theorem Answered.exists_carries (h : Answered answered texts) (htext : text ∈ texts) :
    ∃ line ∈ answered, Carries line text := by
  induction h with
  | nil => cases htext
  | cons hline _ ih =>
    rcases List.mem_cons.1 htext with rfl | hlater
    · exact ⟨_, List.mem_cons_self, hline.1⟩
    · obtain ⟨line, hmem, hcarries⟩ := ih hlater
      exact ⟨line, List.mem_cons_of_mem _ hmem, hcarries⟩

/-- Lines are answered one by one, whatever was written before them and whatever comes after. -/
theorem session_answered (h : Answered answered texts) (written : String) (rest : List (List UInt8)) :
    session tree written (answered ++ rest) = session tree (written ++ exchanged tree texts) rest := by
  induction h generalizing written with
  | nil => rw [exchanged, String.append_empty, List.nil_append]
  | cons hline _ ih =>
    rw [List.cons_append, session_next (reply_of_carries hline.1 hline.2), ih, exchanged, String.append_assoc,
      String.append_assoc, String.append_assoc]

/-- A session ends with the first line that carries no text to answer. -/
theorem exists_ends (tree : Bool) (written : String) (lines : List (List UInt8)) :
    ∃ answered texts rest, lines = answered ++ rest ∧ Answered answered texts ∧
      Ends (written ++ exchanged tree texts) rest (session tree written lines) := by
  induction lines generalizing written with
  | nil =>
    refine ⟨[], [], [], rfl, .nil, ?_⟩
    rw [session_nil, exchanged, String.append_empty]
    exact .endOfInput
  | cons line lines ih =>
    rcases carries_or_unreadable line with ⟨text, hcarries⟩ | hunreadable
    · by_cases hquit : IsQuitWord text
      · refine ⟨[], [], line :: lines, rfl, .nil, ?_⟩
        rw [session_last (reply_of_quit hcarries hquit), exchanged, String.append_empty]
        exact .quit hcarries hquit
      · obtain ⟨answered, texts, rest, rfl, hanswered, hends⟩ := ih (written ++ prompt ++ replyText tree text)
        refine ⟨line :: answered, text :: texts, rest, rfl, .cons ⟨hcarries, hquit⟩ hanswered, ?_⟩
        rw [session_next (reply_of_carries hcarries hquit), exchanged]
        simpa [String.append_assoc] using hends
    · refine ⟨[], [], line :: lines, rfl, .nil, ?_⟩
      rw [session_last (reply_of_unreadable hunreadable), Failure.after_outcome, exchanged, String.append_empty]
      exact .unreadable hunreadable

/-- After a line that ends it a session reads nothing, whatever came before the line. -/
theorem session_ended {outcome : Outcome} (h : reply tree line = .last outcome) (written : String) :
    session tree written (before ++ line :: after) = session tree written (before ++ [line]) := by
  induction before generalizing written with
  | nil => rw [List.nil_append, List.nil_append, session_last h, session_last h]
  | cons first before ih =>
    rw [List.cons_append, List.cons_append, session, session]
    cases reply tree first with
    | next reply => exact ih _
    | last outcome => rfl

/-- Whole lines are answered whatever comes after them. -/
theorem interactive_answered (hwhole : ∀ line ∈ answered, Whole line) (h : Answered answered texts)
    (more : List UInt8) :
    interactive tree (answered.flatten ++ more) = session tree (banner ++ exchanged tree texts) (cutLines more) := by
  rw [interactive, cutLines_append hwhole, session_answered h]

/-- When the input ends, the session has prompted for another line. -/
theorem interactive_waiting (hwhole : ∀ line ∈ answered, Whole line) (h : Answered answered texts) :
    interactive tree answered.flatten = ⟨0, banner ++ exchanged tree texts ++ prompt, ""⟩ := by
  have hanswered : interactive tree (answered.flatten ++ []) = session tree _ [] := interactive_answered hwhole h []
  rw [← List.append_nil answered.flatten, hanswered, session_nil]

/-! ## The main statement -/

/-- A program that holds a conversation with its input. -/
structure IsConversation (tree : Bool) (program : List UInt8 → Outcome) : Prop where
  /-- All lines before the one that ends the session are answered in order, each for what it says alone. -/
  answers (stdin : List UInt8) : ∃ answered texts rest, CutInto stdin (answered ++ rest) ∧ Answered answered texts ∧
    (∀ text ∈ texts, IsReply tree text (replyText tree text)) ∧ Ends (banner ++ exchanged tree texts) rest (program stdin)
  /-- A quit word makes all input after it meaningless. -/
  quits {before : List (List UInt8)} {line : List UInt8} {text : String} (before_whole : ∀ l ∈ before, Whole l)
    (whole : Whole line) (carries : Carries line text) (quit : IsQuitWord text) (after after' : List UInt8) :
    program (before.flatten ++ line ++ after) = program (before.flatten ++ line ++ after')
  /-- A line that is no text fails the session, which has written what it writes if the input ends before the line. -/
  fails {stdin line : List UInt8} {before after : List (List UInt8)} {texts : List String}
    (cut : CutInto stdin (before ++ line :: after)) (answered : Answered before texts) (unreadable : Unreadable line) :
    (program stdin).exit = 1 ∧ (program before.flatten).exit = 0 ∧
      (program stdin).stdout = (program before.flatten).stdout

theorem isConversation_interactive (tree : Bool) : IsConversation tree (interactive tree) where
  answers stdin := by
    obtain ⟨answered, texts, rest, hlines, hanswered, hends⟩ := exists_ends tree banner (cutLines stdin)
    have hcut : CutInto stdin (answered ++ rest) := cutInto_iff.2 hlines
    refine ⟨answered, texts, rest, hcut, hanswered, ?_, hends⟩
    intro text htext
    obtain ⟨line, hline, raw, hraw, rfl⟩ := hanswered.exists_carries htext
    exact isReply_replyText tree (singleLine_of_decodes (hcut.of_mem (List.mem_append_left rest hline)) hraw)
  quits {before line text} before_whole whole carries quit after after' := by
    have hlines (more : List UInt8) :
        cutLines (before.flatten ++ line ++ more) = before ++ line :: cutLines more := by
      rw [List.append_assoc, cutLines_append before_whole, cutLines_whole whole]
    have hlast : reply tree line = .last _ := reply_of_quit carries quit
    rw [interactive, interactive, hlines, hlines]
    exact (session_ended hlast banner).trans (session_ended hlast banner).symm
  fails {stdin line before after texts} cut answered unreadable := by
    have hstdin : interactive tree stdin = unreadableInput.outcome (banner ++ exchanged tree texts ++ prompt) := by
      rw [interactive, cutInto_iff.1 cut, session_answered answered, session_last (reply_of_unreadable unreadable),
        Failure.after_outcome]
    rw [interactive_waiting cut.whole_of_append answered, hstdin]
    exact ⟨rfl, rfl, rfl⟩

/-- The program without an expression holds a conversation, with the tree or without. -/
theorem isConversation_run {args : List String} {details tree : Bool} (h : Asks args details tree []) :
    IsConversation tree (run args) := by
  rw [h.run_eq]
  exact isConversation_interactive tree

/-- A session with an unclosed group, a quit word in mixed case, and a byte that is no text. -/
theorem isConversation_unclosed_group :
    Asks ["--tree"] false true [] ∧ IsConversation true (run ["--tree"]) ∧
      (run ["--tree"] (utf8 "(\n" ++ [255])).exit = 1 ∧
      run ["--tree"] (utf8 "(\n" ++ utf8 " Quit\n" ++ [255]) = run ["--tree"] (utf8 "(\n" ++ utf8 " Quit\n") := by
  have hasks : Asks ["--tree"] false true [] := ⟨rfl, rfl, rfl⟩
  have hconversation := isConversation_run hasks
  have hgroup : Whole (utf8 "(\n") := ⟨utf8 "(", by decide, by decide⟩
  have hword : Whole (utf8 " Quit\n") := ⟨utf8 " Quit", by decide, by decide⟩
  refine ⟨hasks, hconversation, ?_, ?_⟩
  · have hcut : CutInto (utf8 "(\n" ++ [255]) ([utf8 "(\n"] ++ [255] :: []) :=
      .whole hgroup (.unended (by decide) (by decide))
    have hanswered : Answered [utf8 "(\n"] ["("] :=
      .cons ⟨⟨"(\n", decodes_utf8 _, by decide⟩, isQuit_iff.not.1 (by decide)⟩ .nil
    have hunreadable : Unreadable [255] := by
      have hnone : String.fromUTF8? ⟨[255].toArray⟩ = none := by decide
      intro raw hraw
      cases hnone.symm.trans hraw
    exact (hconversation.fails hcut hanswered hunreadable).1
  · have hcarries : Carries (utf8 " Quit\n") "Quit" := ⟨" Quit\n", decodes_utf8 _, by decide⟩
    have hquits : run ["--tree"] ([utf8 "(\n"].flatten ++ utf8 " Quit\n" ++ [255]) =
        run ["--tree"] ([utf8 "(\n"].flatten ++ utf8 " Quit\n" ++ []) :=
      hconversation.quits (by simpa using hgroup) hword hcarries (isQuit_iff.1 (by decide)) [255] []
    simpa using hquits

end Calculator.Console
