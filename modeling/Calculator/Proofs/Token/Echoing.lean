import Calculator.Calculation
import Calculator.Proofs.Number.Printing
import Calculator.Proofs.Token.Lexing
import Calculator.Token.Echo
/-!
# The echo of tokens is read as the same tokens

A text is read by its characters that are not blank, so the spaces of an echo do not count. What is left are the texts of
the tokens in order. A symbol is one character, and the digits of a number are taken one by one, as what a numeral
begins with is a numeral; the number ends at the next symbol, since no two numbers adjoin.

Main statement: `tokenize_echo_roundtrip`.
-/

namespace Calculator

open Number

variable {t : Token} {ts : List Token} {w : List Char} {x : Float}

/-! ## Tokens of texts -/

/-- What the tokens of a text are like: finite numbers without a sign, no two of which adjoin. -/
structure Readable (ts : List Token) : Prop where
  finite (x : Float) : .number x ∈ ts → x.isFinite = true ∧ isNegative x = false
  apart : ts.IsChain fun t u => ¬ (t.isNumber ∧ u.isNumber)

theorem readable_of_tokenize {text : String} (h : tokenize text = .ok ts) : Readable ts := by
  have hspec := tokenize_spec text
  rw [h] at hspec
  exact ⟨finite_of_tokenize h, hspec.isChain isNumber_of_mem_symbols⟩

theorem readable_nil : Readable [] := ⟨nofun, .nil⟩

theorem readable_number (h : x.isFinite = true) (hsign : isNegative x = false) : Readable [.number x] := by
  refine ⟨?_, .singleton _⟩
  intro y hy
  obtain rfl : y = x := by simpa using hy
  exact ⟨h, hsign⟩

theorem Readable.tail (h : Readable (t :: ts)) : Readable ts :=
  ⟨fun x hx => h.finite x (by simp [hx]), (List.isChain_cons.1 h.apart).2⟩

theorem Readable.head_ne_number (h : Readable (.number x :: ts)) (y : Float) (rest : List Token) :
    ts ≠ .number y :: rest := by
  rintro rfl
  exact (List.isChain_cons_cons.1 h.apart).1 ⟨rfl, rfl⟩

/-- A symbol keeps the numbers on its two sides apart. -/
theorem Readable.append (h : Readable ts) (ht : t.isNumber = false) {us : List Token} (hus : Readable us) :
    Readable (ts ++ t :: us) := by
  constructor
  · intro x hx
    rcases List.mem_append.1 hx with hx | hx
    · exact h.finite x hx
    · rcases List.mem_cons.1 hx with rfl | hx
      · cases ht
      · exact hus.finite x hx
  · have htail : (t :: us).IsChain fun t u => ¬ (t.isNumber ∧ u.isNumber) := by
      refine List.isChain_cons.2 ⟨?_, hus.apart⟩
      intro u _
      simp [ht]
    refine List.isChain_append.2 ⟨h.apart, htail, ?_⟩
    intro u _ v hv
    obtain rfl : t = v := by simpa using hv
    simp [ht]

/-- A token is a number or has the text of one symbol. -/
theorem Token.number_or_symbol (t : Token) :
    (∃ x, t = .number x) ∨ ∃ c, t.text.toList = [c] ∧ Token.ofSymbol? c = some t ∧ isBlank c = false := by
  cases t with
  | number x => exact .inl ⟨x, rfl⟩
  | plus => exact .inr ⟨'+', rfl, rfl, rfl⟩
  | minus => exact .inr ⟨'-', rfl, rfl, rfl⟩
  | multiply => exact .inr ⟨'*', rfl, rfl, rfl⟩
  | divide => exact .inr ⟨'/', rfl, rfl, rfl⟩
  | leftParen => exact .inr ⟨'(', rfl, rfl, rfl⟩
  | rightParen => exact .inr ⟨')', rfl, rfl, rfl⟩

/-- A finite number without a sign has the text of a numeral. -/
theorem toList_text_number (x : Float) : (Token.number x).text.toList = chars x := String.toList_ofList

theorem toList_text_of_unsigned (h : x.isFinite = true) (hsign : isNegative x = false) :
    (Token.number x).text.toList = magnitudeChars (magnitude x) := by
  rw [toList_text_number, chars_eq h, hsign, if_neg (by decide)]

/-- The texts of tokens, one after another. -/
def joined (ts : List Token) : List Char := ts.flatMap fun t => t.text.toList

theorem joined_nil : joined [] = [] := rfl

theorem joined_cons (t : Token) (ts : List Token) : joined (t :: ts) = t.text.toList ++ joined ts := List.flatMap_cons

theorem joined_append (ts us : List Token) : joined (ts ++ us) = joined ts ++ joined us := List.flatMap_append

/-! ## Blanks -/

theorem isBlank_eq_false_of_isDigit {c : Char} (h : c.isDigit = true) : isBlank c = false := by
  simp only [Char.isDigit, Bool.and_eq_true, decide_eq_true_eq] at h
  have hlow : 48 ≤ c.toNat := h.1
  have hhigh : c.toNat ≤ 57 := h.2
  simp [isBlank]
  omega

theorem IsNumeral.dropBlanks_eq (h : IsNumeral w) : dropBlanks w = w := by
  apply List.filter_eq_self.2
  intro c hc
  rcases h.isDigit_or_point c hc with hdigit | rfl
  · rw [isBlank_eq_false_of_isDigit hdigit]
    rfl
  · rfl

/-- The texts of tokens have no blanks. -/
theorem dropBlanks_text (h : ∀ x, t = .number x → x.isFinite = true ∧ isNegative x = false) :
    dropBlanks t.text.toList = t.text.toList := by
  rcases t.number_or_symbol with ⟨x, rfl⟩ | ⟨c, htext, -, hblank⟩
  · obtain ⟨hfinite, hsign⟩ := h x rfl
    rw [toList_text_of_unsigned hfinite hsign]
    exact (isNumeral_magnitudeChars hfinite).dropBlanks_eq
  · rw [htext, dropBlanks, List.filter_cons_of_pos (by rw [hblank]; rfl), List.filter_nil]

theorem dropBlanks_joined (h : ∀ x, .number x ∈ ts → x.isFinite = true ∧ isNegative x = false) :
    dropBlanks (joined ts) = joined ts := by
  induction ts with
  | nil => rfl
  | cons t ts ih =>
    have htext : dropBlanks t.text.toList = t.text.toList := by
      apply dropBlanks_text
      rintro x rfl
      exact h x (by simp)
    rw [joined_cons, dropBlanks_append, htext, ih fun x hx => h x (by simp [hx])]

theorem dropBlanks_gap (p : Place) (t : Token) : dropBlanks (p.gap t).toList = [] := by
  unfold Place.gap
  split <;> rfl

/-- An echo differs from the texts of the tokens in blanks only. -/
theorem dropBlanks_echoOnto (p : Place) (ts : List Token) :
    dropBlanks (echoOnto "" p ts).toList = dropBlanks (joined ts) := by
  induction ts generalizing p with
  | nil => rfl
  | cons t ts ih =>
    rw [echoOnto, echoOnto_eq, String.empty_append, String.toList_append, String.toList_append, dropBlanks_append,
      dropBlanks_append, dropBlanks_gap, ih, joined_cons, dropBlanks_append, List.nil_append]

/-! ## Reading the texts of tokens -/

theorem IsNumeral.ofSymbol?_eq_none (h : IsNumeral w) : ∀ c ∈ w, Token.ofSymbol? c = none := by
  intro c hc
  rw [ofSymbol?_eq_none_iff]
  rcases h.isDigit_or_point c hc with hdigit | rfl
  · by_contra hsymbol
    rw [Bool.not_eq_false] at hsymbol
    simp only [isSymbol, decide_eq_true_eq, List.mem_cons, List.not_mem_nil, or_false] at hsymbol
    rcases hsymbol with rfl | rfl | rfl | rfl | rfl | rfl <;> exact absurd hdigit (by decide)
  · decide

theorem flush_blank (tokens : List Token) : Scan.flush ⟨tokens, .blank⟩ = tokens := rfl

/-- A numeral is read character by character to its end. -/
theorem foldlM_numeral (h : IsNumeral w) (tokens : List Token) :
    ∃ n, w.foldlM Scan.read ⟨tokens, .blank⟩ = .ok ⟨tokens, n⟩ ∧ n.Reads w := by
  induction w using List.reverseRecOn with
  | nil => exact absurd rfl h.ne_nil
  | append_singleton w c ih =>
    have hbefore : ∃ n, w.foldlM Scan.read ⟨tokens, .blank⟩ = .ok ⟨tokens, n⟩ ∧ n.Reads w := by
      by_cases hne : w = []
      · subst hne
        exact ⟨.blank, rfl, Numeral.reads_blank⟩
      · exact ih (h.of_append hne)
    obtain ⟨n, hrun, hreads⟩ := hbefore
    obtain ⟨n', hpush⟩ := hreads.exists_push? h
    have hsymbol := h.ofSymbol?_eq_none c (by simp)
    refine ⟨n', ?_, hreads.push? hpush⟩
    rw [List.foldlM_append, hrun]
    simp [bind, Except.bind, pure, Except.pure, Scan.read, hsymbol, hpush]

/-- From any state, the texts of tokens are read as these tokens. A number comes only when no numeral is going on. -/
theorem foldlM_joined (h : Readable ts) (s : Scan) (hs : s.numeral = .blank ∨ ∀ x rest, ts ≠ .number x :: rest) :
    ∃ s', (joined ts).foldlM Scan.read s = .ok s' ∧ s'.flush = ts.reverse ++ s.flush := by
  induction ts generalizing s with
  | nil => exact ⟨s, rfl, rfl⟩
  | cons t ts ih =>
    rw [joined_cons, List.foldlM_append]
    rcases t.number_or_symbol with ⟨x, rfl⟩ | ⟨c, htext, hsymbol, -⟩
    · obtain ⟨hfinite, hsign⟩ := h.finite x (by simp)
      have hblank : s.numeral = .blank := hs.resolve_right fun hne => hne x ts rfl
      obtain ⟨tokens, numeral⟩ := s
      subst hblank
      have hnumeral := isNumeral_magnitudeChars hfinite
      obtain ⟨n, hrun, hreads⟩ := foldlM_numeral hnumeral tokens
      have hvalue := value_of_reads_chars hfinite hsign hreads
      obtain ⟨s', hrest, hflush⟩ := ih h.tail ⟨tokens, n⟩ (.inr h.head_ne_number)
      refine ⟨s', ?_, ?_⟩
      · rw [toList_text_of_unsigned hfinite hsign, hrun]
        exact hrest
      · have hend : Scan.flush ⟨tokens, n⟩ = .number x :: tokens := by
          simp [Scan.flush, Numeral.isBlank, hreads.rev_eq, hnumeral.ne_nil, hvalue]
        rw [hflush, hend, flush_blank, List.reverse_cons, List.append_assoc, List.singleton_append]
    · obtain ⟨s', hrest, hflush⟩ := ih h.tail ⟨t :: s.flush, .blank⟩ (.inl rfl)
      refine ⟨s', ?_, ?_⟩
      · rw [htext, List.foldlM_cons, Scan.read, hsymbol]
        exact hrest
      · rw [hflush, flush_blank, List.reverse_cons, List.append_assoc, List.singleton_append]

/-- A text that differs from the texts of tokens in blanks only is read as these tokens. -/
theorem tokenize_of_dropBlanks_eq {text : String} (h : Readable ts)
    (htext : dropBlanks text.toList = dropBlanks (joined ts)) : tokenize text = .ok ts := by
  rw [dropBlanks_joined h.finite] at htext
  obtain ⟨s, hrun, hflush⟩ := foldlM_joined h .start (.inl rfl)
  rw [Scan.start, flush_blank, List.append_nil] at hflush
  unfold tokenize
  rw [htext, hrun]
  simp only [bind, Except.bind, pure, Except.pure]
  rw [hflush, List.reverse_reverse]

theorem tokenize_echo (h : Readable ts) : tokenize (echo ts) = .ok ts :=
  tokenize_of_dropBlanks_eq h (dropBlanks_echoOnto .attached ts)

/-- What is calculated of a text depends on its tokens only. -/
theorem runCalculation_congr {text text' : String} (h : tokenize text = tokenize text') (trace : Trace) :
    runCalculation text trace = runCalculation text' trace := by
  unfold runCalculation parse
  rw [h]

theorem calculate_congr {text text' : String} (h : tokenize text = tokenize text') : calculate text = calculate text' := by
  unfold calculate calculateTraced
  rw [runCalculation_congr h]

/-- The echo of tokens is read as these tokens, the numbers bit for bit, if the numbers are finite and without a sign and
no two of them adjoin. The tokens of a text are of this kind, whether or not they are an expression. So the echo of a text
is an echo of itself, and has the value or the error of the text. -/
theorem tokenize_echo_roundtrip :
    (∀ ts, Readable ts → tokenize (echo ts) = .ok ts) ∧
      ∀ text ts, tokenize text = .ok ts → Readable ts ∧ tokenize (echo ts) = .ok ts ∧
        (tokenize (echo ts)).map echo = .ok (echo ts) ∧ calculate (echo ts) = calculate text := by
  refine ⟨fun ts h => tokenize_echo h, ?_⟩
  intro text ts h
  have hreadable := readable_of_tokenize h
  have hecho := tokenize_echo hreadable
  refine ⟨hreadable, hecho, ?_, calculate_congr (hecho.trans h.symm)⟩
  rw [hecho]
  rfl

/-- Tokens that are no expression, `) 0.1 - -(2`, and a text that is none. -/
theorem tokenize_echo_unfinished :
    (Readable [.rightParen, .number 0.1, .minus, .minus, .leftParen, .number 2] ∧
      tokenize (echo [.rightParen, .number 0.1, .minus, .minus, .leftParen, .number 2]) =
        .ok [.rightParen, .number 0.1, .minus, .minus, .leftParen, .number 2]) ∧
    tokenize "1 /-( 0" = .ok [.number 1, .divide, .minus, .leftParen, .number 0] ∧
      calculate (echo [.number 1, .divide, .minus, .leftParen, .number 0]) = calculate "1 /-( 0" := by
  have hgroup : Readable [.minus, .leftParen, .number 2] :=
    readable_nil.append rfl (readable_nil.append rfl (readable_number (by decide) (by decide)))
  have hreadable : Readable [.rightParen, .number 0.1, .minus, .minus, .leftParen, .number 2] :=
    readable_nil.append rfl ((readable_number (by decide) (by decide)).append rfl hgroup)
  have htokens : tokenize "1 /-( 0" = .ok [.number 1, .divide, .minus, .leftParen, .number 0] := by decide +kernel
  exact ⟨⟨hreadable, tokenize_echo_roundtrip.1 _ hreadable⟩, htokens, (tokenize_echo_roundtrip.2 _ _ htokens).2.2.2⟩

end Calculator
