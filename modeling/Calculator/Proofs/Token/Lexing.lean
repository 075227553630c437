import Calculator.Token.Scan
import Calculator.Proofs.Number.Spelling
import Mathlib.Data.List.Chain
/-!
# The tokens of a text

The characters of a text that are not blank are cut at the six symbols. The text has tokens exactly if every segment
between them is empty or a numeral. The scan goes through the characters once, and its state is tied
to the cut by what it has read of the segment it is in.

Main statement: `tokenize_eq_segments`.
-/

namespace Calculator

open Number

/-! ## Cutting a text at its symbols -/

def isSymbol (c : Char) : Bool := c ∈ ['+', '-', '*', '/', '(', ')']

/-- What stands between the symbols of a text. -/
def segments (text : String) : List (List Char) := (dropBlanks text.toList).splitOnP isSymbol

/-- The tokens of the symbols of a text. -/
def symbols (text : String) : List Token := (dropBlanks text.toList).filterMap Token.ofSymbol?

theorem ofSymbol?_eq_none_iff {c : Char} : Token.ofSymbol? c = none ↔ isSymbol c = false := by
  unfold Token.ofSymbol? isSymbol
  split <;> simp_all

theorem isSymbol_of_ofSymbol? {c : Char} {t : Token} (h : Token.ofSymbol? c = some t) : isSymbol c = true := by
  by_contra hc
  rw [Bool.not_eq_true, ← ofSymbol?_eq_none_iff, h] at hc
  cases hc

def Token.isNumber : Token → Bool
  | number _ => true
  | _ => false

theorem isNumber_of_ofSymbol? {c : Char} {t : Token} (h : Token.ofSymbol? c = some t) : t.isNumber = false := by
  unfold Token.ofSymbol? at h
  split at h <;> cases h <;> rfl

/-! ## What the tokens are to be -/

/-- An empty segment has no token, a numeral has the double nearest to its value, without a sign. -/
inductive SegmentTokens : List Char → List Token → Prop
  | empty : SegmentTokens [] []
  | numeral {w : List Char} {q : ℚ} {x : Float} : Spelled w q → Binary64.IsNearest q x → isNegative x = false →
      SegmentTokens w [.number x]

/-- The tokens of segments with symbols between them, as they stand in the text. -/
inductive TextTokens : List (List Char) → List Token → List Token → Prop
  | last {w : List Char} {ts : List Token} : SegmentTokens w ts → TextTokens [w] [] ts
  | cons {w : List Char} {ws : List (List Char)} {t : Token} {syms ts us : List Token} : SegmentTokens w ts →
      TextTokens ws syms us → TextTokens (w :: ws) (t :: syms) (ts ++ t :: us)

/-- The error reports the first segment that is no numeral, and there the shortest part of it that is none. -/
def Reports (ws : List (List Char)) (e : LexError) : Prop :=
  ∃ before w after f, ws = before ++ w :: after ∧ (∀ v ∈ before, v ≠ [] → IsNumeral v) ∧ ¬ IsNumeral w ∧
    e.fragment = String.ofList f ∧ f ++ [e.character] <+: w ∧ ¬ IsNumeral (f ++ [e.character]) ∧
      ∀ p, p <+: w → p ≠ [] → ¬ IsNumeral p → (f ++ [e.character]).length ≤ p.length

variable {w : List Char} {ws : List (List Char)} {ts syms : List Token} {e : LexError}

theorem SegmentTokens.isNumeral (h : SegmentTokens w ts) (hne : w ≠ []) : IsNumeral w := by
  rcases h with _ | ⟨hspelled, -, -⟩
  · exact absurd rfl hne
  · exact ⟨_, hspelled⟩

theorem TextTokens.isNumeral (h : TextTokens ws syms ts) : ∀ w ∈ ws, w ≠ [] → IsNumeral w := by
  induction h with
  | last hw => simpa using hw.isNumeral
  | cons hw _ ih =>
    intro v hv
    rcases List.mem_cons.1 hv with rfl | hv
    · exact hw.isNumeral
    · exact ih v hv

theorem TextTokens.finite (h : TextTokens ws syms ts) (hsyms : ∀ t ∈ syms, t.isNumber = false) :
    ∀ x, .number x ∈ ts → x.isFinite = true ∧ isNegative x = false := by
  have hsegment {w ts} (h : SegmentTokens w ts) x (hx : .number x ∈ ts) : x.isFinite = true ∧ isNegative x = false := by
    rcases h with _ | ⟨-, hnear, hsign⟩
    · cases hx
    · obtain rfl : x = _ := by simpa using hx
      exact ⟨hnear.finite, hsign⟩
  induction h with
  | last hw => exact hsegment hw
  | cons hw _ ih =>
    intro x hx
    rcases List.mem_append.1 hx with hx | hx
    · exact hsegment hw x hx
    · rcases List.mem_cons.1 hx with rfl | hx
      · exact absurd (hsyms (.number x) (by simp)) nofun
      · refine ih ?_ x hx
        intro t ht
        exact hsyms t (by simp [ht])

/-- Between two numbers there is a symbol. -/
theorem TextTokens.isChain (h : TextTokens ws syms ts) (hsyms : ∀ t ∈ syms, t.isNumber = false) :
    ts.IsChain fun t u => ¬ (t.isNumber ∧ u.isNumber) := by
  induction h with
  | last hw => rcases hw with _ | _ <;> simp
  | @cons w ws t syms ts us hw _ ih =>
    have ht : t.isNumber = false := hsyms t (by simp)
    have hus : us.IsChain fun t u => ¬ (t.isNumber ∧ u.isNumber) := by
      apply ih
      intro u hu
      exact hsyms u (by simp [hu])
    have htail : (t :: us).IsChain fun t u => ¬ (t.isNumber ∧ u.isNumber) := by
      refine List.isChain_cons.2 ⟨?_, hus⟩
      intro u _
      simp [ht]
    rcases hw with _ | _
    · exact htail
    · exact List.isChain_cons.2 ⟨fun u hu => by simp_all, htail⟩

theorem Reports.not_forall (h : Reports ws e) : ∃ w ∈ ws, w ≠ [] ∧ ¬ IsNumeral w := by
  obtain ⟨before, w, after, f, rfl, -, hw, -, hprefix, -, -⟩ := h
  refine ⟨w, by simp, ?_, hw⟩
  rintro rfl
  simp at hprefix

theorem Reports.cons (hw : w ≠ [] → IsNumeral w) (h : Reports ws e) : Reports (w :: ws) e := by
  obtain ⟨before, v, after, f, rfl, hbefore, hrest⟩ := h
  exact ⟨w :: before, v, after, f, rfl, List.forall_mem_cons.2 ⟨hw, hbefore⟩, hrest⟩

/-- The character after the longest numeral is the one to report. -/
theorem reports_head {f : List Char} {c : Char} (hf : f ≠ [] → IsNumeral f) (hc : ¬ IsNumeral (f ++ [c]))
    (rest : List Char) (ws : List (List Char)) : Reports ((f ++ c :: rest) :: ws) ⟨c, String.ofList f⟩ := by
  have hsplit : f ++ c :: rest = (f ++ [c]) ++ rest := by simp
  refine ⟨[], _, ws, f, rfl, nofun, ?_, rfl, ⟨rest, hsplit.symm⟩, hc, ?_⟩
  · rw [hsplit]
    intro h
    exact hc (h.of_append (by simp))
  -- a shorter part of the segment is part of the numeral
  · intro p hp hne hnot
    by_contra hlt
    rw [List.length_append, List.length_singleton] at hlt
    obtain ⟨q, rfl⟩ := List.prefix_of_prefix_length_le hp (List.prefix_append f _) (by omega)
    exact hnot ((hf (by simp [hne])).of_append hne)

/-! ## The scan -/

/-- When a segment ends, the scan adds its token. -/
theorem flush_spec {n : Numeral} (h : n.Reads w) (tokens : List Token) :
    ∃ ts, SegmentTokens w ts ∧ (Scan.flush ⟨tokens, n⟩).reverse = tokens.reverse ++ ts := by
  unfold Scan.flush Numeral.isBlank
  rw [h.rev_eq]
  by_cases hne : w = []
  · subst hne
    exact ⟨[], .empty, by simp⟩
  · obtain ⟨q, hspelled, hnear, hsign⟩ := h.isNearest_value hne
    exact ⟨_, .numeral hspelled hnear hsign, by simp [hne]⟩

/-- From any state on, the scan gives the tokens of the segments, the one it is in included, or reports
the first that is no numeral. -/
theorem foldlM_read (cs : List Char) (tokens : List Token) {n : Numeral} (h : n.Reads w) :
    match cs.foldlM Scan.read ⟨tokens, n⟩ with
    | .ok s => ∃ ts, s.flush.reverse = tokens.reverse ++ ts ∧
        TextTokens (cs.splitOnPPrepend isSymbol w.reverse) (cs.filterMap Token.ofSymbol?) ts
    | .error e => Reports (cs.splitOnPPrepend isSymbol w.reverse) e := by
  induction cs generalizing tokens n w with
  | nil =>
    obtain ⟨ts, hts, hflush⟩ := flush_spec h tokens
    refine ⟨ts, hflush, ?_⟩
    simpa using TextTokens.last hts
  | cons c cs ih =>
    rw [List.foldlM_cons, Scan.read]
    cases hc : Token.ofSymbol? c with
    | some t =>
      -- the symbol ends the segment, and the next one starts blank
      obtain ⟨ts, hts, hflush⟩ := flush_spec h tokens
      rw [List.splitOnPPrepend_cons_pos (isSymbol_of_ofSymbol? hc), List.filterMap_cons_some hc, List.reverse_reverse]
      have hrest := ih (t :: Scan.flush ⟨tokens, n⟩) Numeral.reads_blank
      simp only [bind, Except.bind]
      cases hrun : cs.foldlM Scan.read ⟨t :: Scan.flush ⟨tokens, n⟩, .blank⟩ with
      | error e =>
        rw [hrun] at hrest
        exact hrest.cons hts.isNumeral
      | ok s =>
        rw [hrun] at hrest
        obtain ⟨us, hus, htext⟩ := hrest
        refine ⟨ts ++ t :: us, ?_, .cons hts htext⟩
        rw [hus, List.reverse_cons, hflush]
        simp
    | none =>
      rw [List.splitOnPPrepend_cons_neg (ofSymbol?_eq_none_iff.1 hc), List.filterMap_cons_none hc]
      rcases Numeral.push?_spec h c with ⟨n', hpush, hreads⟩ | ⟨hpush, hnot⟩
      · rw [hpush]
        have hrest := ih tokens hreads
        rw [List.reverse_concat] at hrest
        exact hrest
      · rw [hpush, List.splitOnPPrepend_eq_modifyHead]
        have hw : w ≠ [] → IsNumeral w := h.isNumeral
        rcases hsplit : cs.splitOnP isSymbol with _ | ⟨v, vs⟩
        · exact absurd hsplit (List.splitOnP_ne_nil _ _)
        · have hreports := reports_head hw hnot v vs
          simpa [Numeral.text, h.rev_eq, bind, Except.bind] using hreports

theorem tokenize_spec (text : String) :
    match tokenize text with
    | .ok ts => TextTokens (segments text) (symbols text) ts
    | .error e => Reports (segments text) e := by
  have hrun := foldlM_read (dropBlanks text.toList) [] Numeral.reads_blank
  unfold tokenize Scan.start segments symbols
  rw [List.splitOnP_eq_splitOnPPrepend]
  cases hscan : (dropBlanks text.toList).foldlM Scan.read ⟨[], .blank⟩ with
  | error e =>
    rw [hscan] at hrun
    exact hrun
  | ok s =>
    rw [hscan] at hrun
    obtain ⟨ts, hts, htext⟩ := hrun
    rw [List.reverse_nil, List.nil_append] at hts
    rw [← hts] at htext
    exact htext

theorem isNumber_of_mem_symbols {text : String} : ∀ t ∈ symbols text, t.isNumber = false := by
  intro t ht
  obtain ⟨c, -, hc⟩ := List.mem_filterMap.1 ht
  exact isNumber_of_ofSymbol? hc

/-- The tokens of a text hold finite doubles without a sign. -/
theorem finite_of_tokenize {text : String} (h : tokenize text = .ok ts) :
    ∀ x, .number x ∈ ts → x.isFinite = true ∧ isNegative x = false := by
  have hspec := tokenize_spec text
  rw [h] at hspec
  exact hspec.finite isNumber_of_mem_symbols

/-- A text has tokens exactly if its segments are empty or numerals. They are its symbols and the doubles nearest to the
numerals, in its order; the doubles are finite and without a sign, and no two of them adjoin. Otherwise the error is the
first character that no numeral has there, with the numeral before it. -/
theorem tokenize_eq_segments (text : String) :
    ((∃ ts, tokenize text = .ok ts) ↔ ∀ w ∈ segments text, w ≠ [] → IsNumeral w) ∧
    (∀ ts, tokenize text = .ok ts → TextTokens (segments text) (symbols text) ts ∧
      (∀ x, .number x ∈ ts → x.isFinite = true ∧ isNegative x = false) ∧
      ∀ x y, ¬ [.number x, .number y] <:+: ts) ∧
    (∀ e, tokenize text = .error e → Reports (segments text) e) := by
  have hspec := tokenize_spec text
  refine ⟨?_, ?_, ?_⟩
  · constructor
    · rintro ⟨ts, hts⟩
      rw [hts] at hspec
      exact hspec.isNumeral
    · intro hall
      cases htokens : tokenize text with
      | ok ts => exact ⟨ts, rfl⟩
      | error e =>
        rw [htokens] at hspec
        obtain ⟨w, hw, hne, hnot⟩ := hspec.not_forall
        exact absurd (hall w hw hne) hnot
  · intro ts hts
    rw [hts] at hspec
    refine ⟨hspec, finite_of_tokenize hts, ?_⟩
    intro x y hinfix
    have hchain := List.IsChain.infix (hspec.isChain isNumber_of_mem_symbols) hinfix
    simp [Token.isNumber] at hchain
  · intro e he
    rw [he] at hspec
    exact hspec

end Calculator
