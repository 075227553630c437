import Calculator.Proofs.Token.Lexing
/-!
# Texts joined by a symbol

A symbol ends the numeral before it and starts afresh, so it leaves nothing behind but the tokens read so far, and these
have no influence on what is read after them. So the tokens of two texts with a symbol between them are those of the texts
with its token between them, and the error, if there is one, is that of the first text that has one.

Main statement: `tokenize_joined_by_symbol`.
-/

namespace Calculator

/-! ## Tokens already read -/

namespace Scan

/-- The scan with older tokens below its own. -/
def onto (base : List Token) (s : Scan) : Scan := ⟨s.tokens ++ base, s.numeral⟩

variable (base : List Token) (s : Scan)

theorem flush_onto : (s.onto base).flush = s.flush ++ base := by
  unfold flush onto
  split <;> rfl

theorem read_onto (c : Char) : (s.onto base).read c = (s.read c).map (onto base) := by
  unfold read
  cases Token.ofSymbol? c with
  | some t =>
    simp only
    rw [flush_onto]
    rfl
  | none =>
    cases hpush : s.numeral.push? c with
    | some n => simp only [onto, hpush, Except.map]
    | none => simp only [onto, hpush, Except.map]

/-- Older tokens stay below, and nothing else depends on them. -/
theorem foldlM_onto (cs : List Char) : cs.foldlM read (s.onto base) = (cs.foldlM read s).map (onto base) := by
  induction cs generalizing s with
  | nil => rfl
  | cons c cs ih =>
    rw [List.foldlM_cons, List.foldlM_cons, read_onto]
    cases s.read c with
    | error e => rfl
    | ok next => exact ih next

end Scan

/-! ## Symbols between texts -/

theorem isBlank_of_ofSymbol? {c : Char} {t : Token} (h : Token.ofSymbol? c = some t) : isBlank c = false := by
  unfold Token.ofSymbol? at h
  split at h <;> cases h <;> rfl

/-- The texts on the two sides of a symbol are read each by itself. -/
theorem tokenize_append_symbol {c : Char} {t : Token} (hc : Token.ofSymbol? c = some t) (a b : String) :
    tokenize (a ++ c.toString ++ b) = do
      let ts ← tokenize a
      let us ← tokenize b
      return ts ++ t :: us := by
  have hchars : dropBlanks (a ++ c.toString ++ b).toList = dropBlanks a.toList ++ c :: dropBlanks b.toList := by
    have hkept : dropBlanks [c] = [c] := by simp [dropBlanks, isBlank_of_ofSymbol? hc]
    have hsymbol : c.toString.toList = [c] := by simp
    rw [String.toList_append, String.toList_append, hsymbol, dropBlanks_append, dropBlanks_append, hkept,
      List.append_assoc, List.singleton_append]
  unfold tokenize
  rw [hchars, List.foldlM_append]
  cases (dropBlanks a.toList).foldlM Scan.read Scan.start with
  | error e => rfl
  | ok s =>
    have hread : s.read c = .ok (Scan.start.onto (t :: s.flush)) := by
      rw [Scan.read, hc]
      rfl
    simp only [bind, Except.bind, List.foldlM_cons]
    rw [hread]
    simp only
    rw [Scan.foldlM_onto]
    cases (dropBlanks b.toList).foldlM Scan.read Scan.start with
    | error e => rfl
    | ok s' => simp [Except.map, pure, Except.pure, Scan.flush_onto]

/-- A symbol in front of a text is a token in front of its tokens. -/
theorem tokenize_symbol_append {c : Char} {t : Token} (hc : Token.ofSymbol? c = some t) (b : String) :
    tokenize (c.toString ++ b) = (tokenize b).map (t :: ·) := by
  have hempty : tokenize "" = .ok [] := rfl
  rw [← String.empty_append (s := c.toString), tokenize_append_symbol hc, hempty]
  cases tokenize b <;> rfl

/-- An error is not mended by what follows, as no character is ever read again. -/
theorem tokenize_append_of_error {a : String} {e : LexError} (h : tokenize a = .error e) (b : String) :
    tokenize (a ++ b) = .error e := by
  unfold tokenize at h ⊢
  rw [String.toList_append, dropBlanks_append, List.foldlM_append]
  cases hscan : (dropBlanks a.toList).foldlM Scan.read Scan.start with
  | error e' =>
    rw [hscan] at h
    exact h
  | ok s =>
    rw [hscan] at h
    cases h

theorem exists_ofSymbol? {c : Char} (h : isSymbol c = true) : ∃ t, Token.ofSymbol? c = some t := by
  cases hc : Token.ofSymbol? c with
  | none =>
    rw [ofSymbol?_eq_none_iff, h] at hc
    cases hc
  | some t => exact ⟨t, rfl⟩

theorem text_of_ofSymbol? {c : Char} {t : Token} (h : Token.ofSymbol? c = some t) : t.text = c.toString := by
  unfold Token.ofSymbol? at h
  split at h <;> cases h <;> rfl

/-! ## The main statement -/

/-- A symbol between two texts joins their tokens with its own. If the first text has an error, that is the error of the
whole, and else that of the second if it has one, with the same character and numeral. An error stays the error whatever
text follows. -/
theorem tokenize_joined_by_symbol (a b : String) :
    (∀ c, isSymbol c = true → ∃ t, Token.ofSymbol? c = some t ∧ t.text = c.toString ∧
      (∀ e, tokenize a = .error e → tokenize (a ++ c.toString ++ b) = .error e) ∧
      (∀ ts e, tokenize a = .ok ts → tokenize b = .error e → tokenize (a ++ c.toString ++ b) = .error e) ∧
      ∀ ts us, tokenize a = .ok ts → tokenize b = .ok us → tokenize (a ++ c.toString ++ b) = .ok (ts ++ t :: us)) ∧
    ∀ e, tokenize a = .error e → tokenize (a ++ b) = .error e := by
  refine ⟨?_, fun e h => tokenize_append_of_error h b⟩
  intro c hc
  obtain ⟨t, ht⟩ := exists_ofSymbol? hc
  refine ⟨t, ht, text_of_ofSymbol? ht, ?_, ?_, ?_⟩ <;> simp only [tokenize_append_symbol ht]
  · intro e ha
    rw [ha]
    rfl
  · intro ts e ha hb
    rw [ha, hb]
    rfl
  · intro ts us ha hb
    rw [ha, hb]
    rfl

end Calculator
