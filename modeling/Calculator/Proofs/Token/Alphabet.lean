import Calculator.Proofs.Token.Lexing
/-!
# The characters of a text

A text that has tokens is made of blanks, symbols, digits and points, and of nothing else. The error of one that has none
shows nothing but characters of the text, and no blank among them, as these are dropped before anything is read.
-/

namespace Calculator

variable {s s' : Scan} {c : Char} {cs : List Char} {text : String} {e : LexError}

theorem Numeral.rev_push? {n n' : Numeral} (h : n.push? c = some n') : n'.rev = c :: n.rev := by
  unfold push? at h
  split at h
  · simp only at h
    split at h
    · split at h <;> cases h
      rfl
    · cases h
      rfl
  · split at h <;> cases h
    rfl

theorem Numeral.isDigit_or_point_of_push? {n n' : Numeral} (h : n.push? c = some n') : c.isDigit = true ∨ c = '.' := by
  unfold push? at h
  split at h
  · next hdigit => exact .inl hdigit
  · split at h
    · next hpoint => exact .inr hpoint.1
    · cases h

/-! ## Texts with tokens -/

/-- A character that belongs to a token. -/
def IsTokenChar (c : Char) : Prop := isSymbol c = true ∨ c.isDigit = true ∨ c = '.'

instance (c : Char) : Decidable (IsTokenChar c) := inferInstanceAs (Decidable (_ ∨ _))

theorem Scan.isTokenChar_of_read (h : s.read c = .ok s') : IsTokenChar c := by
  unfold Scan.read at h
  split at h
  · next t hsymbol => exact .inl (isSymbol_of_ofSymbol? hsymbol)
  · split at h
    · next n hpush => exact .inr (Numeral.isDigit_or_point_of_push? hpush)
    · cases h

theorem isTokenChar_of_foldlM (h : cs.foldlM Scan.read s = .ok s') : ∀ c ∈ cs, IsTokenChar c := by
  induction cs generalizing s with
  | nil => nofun
  | cons c cs ih =>
    rw [List.foldlM_cons] at h
    cases hread : s.read c with
    | error e =>
      rw [hread] at h
      cases h
    | ok next =>
      rw [hread] at h
      exact List.forall_mem_cons.2 ⟨Scan.isTokenChar_of_read hread, ih h⟩

/-- A text that has tokens is made of their characters and of blanks. -/
theorem isTokenChar_of_tokenize {ts : List Token} (h : tokenize text = .ok ts) :
    ∀ c ∈ text.toList, isBlank c = true ∨ IsTokenChar c := by
  unfold tokenize at h
  cases hscan : (dropBlanks text.toList).foldlM Scan.read Scan.start with
  | error e =>
    rw [hscan] at h
    cases h
  | ok s =>
    intro c hc
    by_cases hblank : isBlank c = true
    · exact .inl hblank
    · have hkept : c ∈ dropBlanks text.toList := List.mem_filter.2 ⟨hc, by simp [hblank]⟩
      exact .inr (isTokenChar_of_foldlM hscan c hkept)

theorem not_mem_of_tokenize {ts : List Token} (h : tokenize text = .ok ts) (hblank : isBlank c = false)
    (hother : ¬ IsTokenChar c) : c ∉ text.toList := by
  intro hmem
  rcases isTokenChar_of_tokenize h c hmem with hc | hc
  · rw [hblank] at hc
    cases hc
  · exact hother hc

/-! ## Texts without -/

/-- The error of a scan shows characters that were read, now or before. -/
theorem mem_of_foldlM_error (h : cs.foldlM Scan.read s = .error e) :
    e.character ∈ cs ∧ ∀ c ∈ e.fragment.toList, c ∈ s.numeral.rev ∨ c ∈ cs := by
  induction cs generalizing s with
  | nil => cases h
  | cons c cs ih =>
    rw [List.foldlM_cons, Scan.read] at h
    cases hsymbol : Token.ofSymbol? c with
    | some t =>
      rw [hsymbol] at h
      obtain ⟨hcharacter, hfragment⟩ := ih h
      refine ⟨List.mem_cons_of_mem c hcharacter, fun d hd => ?_⟩
      rcases hfragment d hd with hblank | hcs
      · cases hblank
      · exact .inr (List.mem_cons_of_mem c hcs)
    | none =>
      rw [hsymbol] at h
      cases hpush : s.numeral.push? c with
      | none =>
        simp only [hpush] at h
        cases h
        exact ⟨List.mem_cons_self, fun d hd => .inl (by simpa [Numeral.text] using hd)⟩
      | some n =>
        simp only [hpush] at h
        obtain ⟨hcharacter, hfragment⟩ := ih h
        refine ⟨List.mem_cons_of_mem c hcharacter, fun d hd => ?_⟩
        rcases hfragment d hd with hnumeral | hcs
        · rw [Numeral.rev_push? hpush] at hnumeral
          rcases List.mem_cons.1 hnumeral with rfl | hbefore
          · exact .inr List.mem_cons_self
          · exact .inl hbefore
        · exact .inr (List.mem_cons_of_mem c hcs)

/-- The error of a text shows none of its blanks. -/
theorem isBlank_eq_false_of_tokenize (h : tokenize text = .error e) :
    isBlank e.character = false ∧ ∀ c ∈ e.fragment.toList, isBlank c = false := by
  have hkept {c : Char} (hc : c ∈ dropBlanks text.toList) : isBlank c = false := by
    simpa using (List.mem_filter.1 hc).2
  unfold tokenize at h
  cases hscan : (dropBlanks text.toList).foldlM Scan.read Scan.start with
  | ok s =>
    rw [hscan] at h
    cases h
  | error err =>
    rw [hscan] at h
    cases h
    obtain ⟨hcharacter, hfragment⟩ := mem_of_foldlM_error hscan
    refine ⟨hkept hcharacter, fun c hc => ?_⟩
    rcases hfragment c hc with hstart | hcs
    · cases hstart
    · exact hkept hcs

end Calculator
