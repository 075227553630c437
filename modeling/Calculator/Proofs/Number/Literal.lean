import Calculator.Proofs.Number.Spelling
/-!
# Reading on is reading again

A text stands for a double as `Literal` says: digits with a point or none, an exponent or none, a name for what is not
finite, a sign or none. The reader of numerals takes a further character exactly if all characters up to
it stand for a finite double, and then its value is that double. So it need not look at them again,
although digits after the point are taken without a look at the value.

Main statement: `Numeral.push?_eq_literal`.
-/

namespace Calculator

/-! ## Texts of doubles -/

/-- Digits with a point among them or not, and the decimal they spell. -/
inductive Mantissa : List Char → Decimal → Prop
  | whole {ds : List Char} : ds ≠ [] → AllDigits ds → Mantissa ds ⟨wholeNumber ds, 0⟩
  | point {ds fs : List Char} : ds ++ fs ≠ [] → AllDigits ds → AllDigits fs →
      Mantissa (ds ++ '.' :: fs) ⟨wholeNumber (ds ++ fs), fs.length⟩

/-- A text without a sign and the double it stands for. -/
inductive Unsigned : List Char → Float → Prop
  | plain {w : List Char} {d : Decimal} : Mantissa w d → Unsigned w d.toFloat
  | scaledUp {w es plus : List Char} {d : Decimal} {e : Char} : Mantissa w d → e = 'e' ∨ e = 'E' →
      plus = [] ∨ plus = ['+'] → es ≠ [] → AllDigits es →
      Unsigned (w ++ e :: (plus ++ es)) (Decimal.toFloat ⟨d.coefficient * 10 ^ wholeNumber es, d.places⟩)
  | scaledDown {w es : List Char} {d : Decimal} {e : Char} : Mantissa w d → e = 'e' ∨ e = 'E' →
      es ≠ [] → AllDigits es →
      Unsigned (w ++ e :: '-' :: es) (Decimal.toFloat ⟨d.coefficient, d.places + wholeNumber es⟩)
  | infinity {w : List Char} : String.ofList (w.map Char.toLower) ∈ ["inf", "infinity"] → Unsigned w (1 / 0)
  | nan {w : List Char} : String.ofList (w.map Char.toLower) = "nan" → Unsigned w (0 / 0)

/-- A text and the double it stands for. -/
inductive Literal : List Char → Float → Prop
  | unsigned {w : List Char} {x : Float} : Unsigned w x → Literal w x
  | plus {w : List Char} {x : Float} : Unsigned w x → Literal ('+' :: w) x
  | minus {w : List Char} {x : Float} : Unsigned w x → Literal ('-' :: w) (-x)

/-! ## Numerals among them -/

variable {n n' : Numeral} {w : List Char} {c : Char} {d : Decimal} {x : Float}

theorem Mantissa.ne_nil (h : Mantissa w d) : w ≠ [] := by
  rcases h with ⟨hne, -⟩ | _
  · exact hne
  · simp

/-- A text spells one decimal at most. -/
theorem Mantissa.unique {d' : Decimal} (h : Mantissa w d) (h' : Mantissa w d') : d = d' := by
  rcases h with ⟨-, hds⟩ | ⟨-, hds, -⟩
  · rcases h' with _ | _
    · rfl
    · exact absurd (by simp) hds.not_mem_point
  · generalize hpoint : _ ++ '.' :: _ = w at h'
    rcases h' with ⟨-, hds'⟩ | ⟨-, hds', -⟩
    · subst hpoint
      exact absurd (by simp) hds'.not_mem_point
    · obtain ⟨rfl, rfl⟩ := cut_at_first hds.not_mem_point hds'.not_mem_point hpoint
      rfl

theorem Unsigned.ne_nil (h : Unsigned w x) : w ≠ [] := by
  rcases h with hw | _ | _ | hname | hname
  · exact hw.ne_nil
  · simp
  · simp
  · rintro rfl
    revert hname
    decide
  · rintro rfl
    revert hname
    decide

namespace Numeral

theorem Reads.mem (h : n.Reads w) : ∀ a ∈ w, a.isDigit = true ∨ a = '.' := by
  intro a ha
  rcases h with ⟨hds, -⟩ | ⟨-, hds, -, hfs⟩
  · exact .inl (hds a ha)
  · rcases List.mem_append.1 ha with ha | ha
    · exact .inl (hds a ha)
    · rcases List.mem_cons.1 ha with rfl | ha
      · exact .inr rfl
      · exact .inl (hfs a ha)

theorem Reads.isDigit_head {a : Char} {rest : List Char} (h : n.Reads (a :: rest)) : a.isDigit = true := by
  generalize hw : a :: rest = w at h
  rcases h with ⟨hds, -⟩ | ⟨hds0, hds, -, -⟩
  · exact hds a (by simp [← hw])
  · obtain ⟨b, ds, rfl⟩ := List.exists_cons_of_ne_nil hds0
    obtain ⟨rfl, -⟩ := List.cons.inj hw
    exact hds a (by simp)

theorem Reads.mantissa (h : n.Reads w) (hne : w ≠ []) : Mantissa w n.decimal := by
  rcases h with ⟨hds, -⟩ | ⟨hds0, hds, -, hfs⟩
  · exact .whole hne hds
  · exact .point (by simp [hds0]) hds hfs

theorem Reads.decimal_eq (h : n.Reads w) (hw : Mantissa w d) : n.decimal = d := (h.mantissa hw.ne_nil).unique hw

theorem Reads.literal (h : n.Reads w) (hne : w ≠ []) : Literal w n.value ∧ n.value.isFinite = true :=
  ⟨.unsigned (.plain (h.mantissa hne)), (Decimal.isFinite_toFloat_iff _).2 (h.spelled hne).2⟩

/-- Digits that a numeral goes on with are a numeral if they stand for a finite double. -/
theorem Reads.isNumeral_of_mantissa (h : n.Reads w) (hw : Mantissa (w ++ [c]) d) (hfinite : d.toFloat.isFinite = true) :
    IsNumeral (w ++ [c]) := by
  rw [Decimal.isFinite_toFloat_iff] at hfinite
  generalize hv : w ++ [c] = v at hw
  rcases hw with ⟨hne, hds⟩ | @⟨ds, fs, hne, hds, hfs⟩
  · exact ⟨_, .whole hne hds (by simpa using hfinite)⟩
  · have hbound : wholeNumber ds < finiteBound := by
      rw [wholeNumber_append] at hfinite
      have hpos : 0 < 10 ^ fs.length := by positivity
      exact Nat.lt_of_mul_lt_mul_right (Nat.lt_of_le_of_lt (Nat.le_add_right _ _) hfinite)
    refine ⟨_, .point ?_ hds hbound hfs⟩
    rintro rfl
    cases w with
    | nil =>
      obtain ⟨-, rfl⟩ := List.cons.inj hv
      exact hne rfl
    | cons a w =>
      obtain ⟨rfl, -⟩ := List.cons.inj hv
      exact absurd h.isDigit_head (by decide)

/-- Neither a letter nor a sign stands before the last character. -/
theorem Reads.of_append_cons (h : n.Reads w) {v es : List Char} {a : Char} (hes : es ≠ [])
    (heq : w ++ [c] = v ++ a :: es) : a.isDigit = true ∨ a = '.' := by
  obtain ⟨es, b, rfl⟩ := (List.eq_nil_or_concat' es).resolve_left hes
  rw [← List.cons_append, ← List.append_assoc] at heq
  obtain ⟨rfl, -⟩ := List.append_inj' heq rfl
  exact h.mem a (by simp)

/-- A numeral does not go on with an exponent, a sign or a name. -/
theorem Reads.mantissa_of_literal (h : n.Reads w) (hw : Literal (w ++ [c]) x) (hfinite : x.isFinite = true) :
    ∃ d, Mantissa (w ++ [c]) d ∧ x = d.toFloat := by
  generalize hv : w ++ [c] = v at hw ⊢
  have hexponent {u es : List Char} {e : Char} (he : e = 'e' ∨ e = 'E') (hes : es ≠ []) :
      w ++ [c] ≠ u ++ e :: es := by
    intro heq
    have hletter := h.of_append_cons hes heq
    rcases he with rfl | rfl <;> revert hletter <;> decide
  rcases hw with hunsigned | hunsigned | hunsigned
  · rcases hunsigned with hd | ⟨-, he, -, hes, -⟩ | ⟨-, he, -, -⟩ | _ | _
    · exact ⟨_, hd, rfl⟩
    · exact absurd hv (hexponent he (by simp [hes]))
    · exact absurd hv (hexponent he (by simp))
    · exact absurd hfinite (by decide)
    · exact absurd hfinite (by decide)
  · exact absurd (h.of_append_cons (v := []) hunsigned.ne_nil hv) (by decide)
  · exact absurd (h.of_append_cons (v := []) hunsigned.ne_nil hv) (by decide)

/-- A further character is taken exactly if all up to it stand for a finite double, which is the value then. -/
theorem push?_eq_literal (h : n.Reads w) (c : Char) (x : Float) :
    (∃ n', n.push? c = some n' ∧ n'.value = x) ↔ Literal (w ++ [c]) x ∧ x.isFinite = true := by
  constructor
  · rintro ⟨n', hpush, rfl⟩
    exact (h.push? hpush).literal (by simp)
  · rintro ⟨hliteral, hfinite⟩
    obtain ⟨d, hd, rfl⟩ := h.mantissa_of_literal hliteral hfinite
    obtain ⟨n', hpush⟩ := h.exists_push? (h.isNumeral_of_mantissa hd hfinite)
    exact ⟨n', hpush, congrArg Decimal.toFloat ((h.push? hpush).decimal_eq hd)⟩

end Numeral

end Calculator
