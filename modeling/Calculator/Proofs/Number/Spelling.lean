import Calculator.Proofs.Number.Rounding
import Mathlib.Data.Nat.Digits.Defs
/-!
# Numerals as they are spelled

A numeral is one or more digits, with a point and any number of digits behind them or not, whose digits before the
point are below the bound of the finite doubles. `Numeral.Reads` ties the state of the reader to the characters
read, and every further character either keeps it or spells no numeral.

Main statements: `Numeral.push?_spec`, and `Numeral.Reads.spelled` for the value when the numeral ends.
-/

namespace Calculator

/-! ## Digits -/

def AllDigits (cs : List Char) : Prop := ∀ c ∈ cs, c.isDigit = true

/-- The whole number that digits spell. -/
def wholeNumber (cs : List Char) : Nat := Nat.ofDigits 10 (cs.reverse.map fun c => c.toNat - '0'.toNat)

variable {cs ds fs w : List Char} {c : Char}

theorem allDigits_nil : AllDigits [] := nofun

theorem allDigits_append : AllDigits (ds ++ fs) ↔ AllDigits ds ∧ AllDigits fs := List.forall_mem_append

theorem allDigits_singleton : AllDigits [c] ↔ c.isDigit = true := List.forall_mem_singleton

theorem AllDigits.not_mem_point (h : AllDigits cs) : '.' ∉ cs := by
  intro hmem
  have := h _ hmem
  revert this
  decide

theorem wholeNumber_concat (cs : List Char) (c : Char) :
    wholeNumber (cs ++ [c]) = wholeNumber cs * 10 + (c.toNat - '0'.toNat) := by
  unfold wholeNumber
  rw [List.reverse_append, List.reverse_singleton, List.singleton_append, List.map_cons, Nat.ofDigits_cons]
  rw [Nat.mul_comm, Nat.add_comm]

theorem digit_le (h : c.isDigit = true) : c.toNat - '0'.toNat ≤ 9 := by
  simp only [Char.isDigit, Bool.and_eq_true, decide_eq_true_eq] at h
  have : c.toNat ≤ 57 := h.2
  have : '0'.toNat = 48 := rfl
  omega

theorem wholeNumber_lt (h : AllDigits cs) : wholeNumber cs < 10 ^ cs.length := by
  induction cs using List.reverseRecOn with
  | nil => simp [wholeNumber]
  | append_singleton cs c ih =>
    obtain ⟨hcs, hc⟩ := allDigits_append.1 h
    have hlt := ih hcs
    have hle := digit_le (allDigits_singleton.1 hc)
    rw [wholeNumber_concat, List.length_append, List.length_singleton, pow_succ]
    omega

theorem wholeNumber_append (ds fs : List Char) :
    wholeNumber (ds ++ fs) = wholeNumber ds * 10 ^ fs.length + wholeNumber fs := by
  induction fs using List.reverseRecOn with
  | nil => simp [wholeNumber]
  | append_singleton fs c ih =>
    rw [← List.append_assoc, wholeNumber_concat, ih, wholeNumber_concat, List.length_append, List.length_singleton,
      pow_succ]
    ring

theorem wholeNumber_le_append (ds : List Char) : wholeNumber ds ≤ wholeNumber (ds ++ fs) := by
  rw [wholeNumber_append]
  have : 0 < 10 ^ fs.length := by positivity
  nlinarith

/-! ## Numerals -/

/-- A numeral and its decimal value. -/
inductive Spelled : List Char → ℚ → Prop
  | whole {ds : List Char} : ds ≠ [] → AllDigits ds → wholeNumber ds < Numeral.finiteBound →
      Spelled ds (wholeNumber ds)
  | point {ds fs : List Char} : ds ≠ [] → AllDigits ds → wholeNumber ds < Numeral.finiteBound → AllDigits fs →
      Spelled (ds ++ '.' :: fs) (wholeNumber ds + wholeNumber fs / 10 ^ fs.length)

def IsNumeral (w : List Char) : Prop := ∃ q, Spelled w q

theorem isNumeral_iff : IsNumeral w ↔ ∃ ds fs, ds ≠ [] ∧ AllDigits ds ∧ wholeNumber ds < Numeral.finiteBound ∧
    AllDigits fs ∧ (w = ds ∧ fs = [] ∨ w = ds ++ '.' :: fs) := by
  constructor
  · rintro ⟨-, ⟨hne, hds, hlt⟩ | ⟨hne, hds, hlt, hfs⟩⟩
    · exact ⟨_, [], hne, hds, hlt, allDigits_nil, .inl ⟨rfl, rfl⟩⟩
    · exact ⟨_, _, hne, hds, hlt, hfs, .inr rfl⟩
  · rintro ⟨ds, fs, hne, hds, hlt, hfs, ⟨rfl, rfl⟩ | rfl⟩
    · exact ⟨_, .whole hne hds hlt⟩
    · exact ⟨_, .point hne hds hlt hfs⟩

theorem IsNumeral.ne_nil (h : IsNumeral w) : w ≠ [] := by
  rcases h with ⟨-, hne | hne⟩
  · exact hne
  · simp

theorem IsNumeral.isDigit_or_point (h : IsNumeral w) : ∀ c ∈ w, c.isDigit = true ∨ c = '.' := by
  obtain ⟨ds, fs, -, hds, -, hfs, ⟨rfl, -⟩ | rfl⟩ := isNumeral_iff.1 h
  · exact fun c hc => .inl (hds c hc)
  · intro c hc
    rcases List.mem_append.1 hc with hc | hc
    · exact .inl (hds c hc)
    · rcases List.mem_cons.1 hc with rfl | hc
      · exact .inr rfl
      · exact .inl (hfs c hc)

/-- A list is cut in one way at the first place where an element stands. -/
theorem cut_at_first {α : Type} {a : α} {before before' after after' : List α} (h : a ∉ before) (h' : a ∉ before')
    (heq : before ++ a :: after = before' ++ a :: after') : before = before' ∧ after = after' := by
  rcases List.append_eq_append_iff.1 heq with ⟨more, rfl, hcut⟩ | ⟨more, rfl, hcut⟩
  · cases more with
    | nil => simpa using hcut
    | cons b more =>
      obtain rfl : a = b := (List.cons.inj hcut).1
      exact absurd (by simp) h'
  · cases more with
    | nil => simpa using hcut.symm
    | cons b more =>
      obtain rfl : a = b := (List.cons.inj hcut).1
      exact absurd (by simp) h

/-- A numeral has one value. -/
theorem Spelled.unique {q q' : ℚ} (h : Spelled w q) (h' : Spelled w q') : q = q' := by
  rcases h with ⟨-, hds, -⟩ | ⟨-, hds, -, -⟩
  · rcases h' with _ | _
    · rfl
    · exact absurd (by simp) hds.not_mem_point
  · generalize hw : _ ++ '.' :: _ = w at h'
    rcases h' with ⟨-, hds', -⟩ | ⟨-, hds', -, -⟩
    · subst hw
      exact absurd (by simp) hds'.not_mem_point
    · obtain ⟨rfl, rfl⟩ := cut_at_first hds.not_mem_point hds'.not_mem_point hw
      rfl

/-- What a numeral begins with is a numeral. -/
theorem IsNumeral.of_append (h : IsNumeral (w ++ cs)) (hne : w ≠ []) : IsNumeral w := by
  obtain ⟨ds, fs, hds0, hds, hlt, hfs, ⟨heq, rfl⟩ | heq⟩ := isNumeral_iff.1 h
  · subst heq
    exact ⟨_, .whole hne (allDigits_append.1 hds).1 ((wholeNumber_le_append w).trans_lt hlt)⟩
  · rcases List.append_eq_append_iff.1 heq with ⟨rest, rfl, -⟩ | ⟨rest, rfl, hrest⟩
    · exact ⟨_, .whole hne (allDigits_append.1 hds).1 ((wholeNumber_le_append w).trans_lt hlt)⟩
    · rcases rest with _ | ⟨c, rest⟩
      · rw [List.append_nil]
        exact ⟨_, .whole hds0 hds hlt⟩
      · obtain ⟨rfl, rfl⟩ := List.cons.inj hrest
        exact ⟨_, .point hds0 hds hlt (allDigits_append.1 hfs).1⟩

/-! ## Reading a numeral -/

namespace Numeral

/-- The characters read, and the whole number and the places that they come to. -/
inductive Reads : Numeral → List Char → Prop
  | whole {ds : List Char} : AllDigits ds → wholeNumber ds < finiteBound →
      Reads ⟨ds.reverse, wholeNumber ds, none⟩ ds
  | point {ds fs : List Char} : ds ≠ [] → AllDigits ds → wholeNumber ds < finiteBound → AllDigits fs →
      Reads ⟨(ds ++ '.' :: fs).reverse, wholeNumber (ds ++ fs), some fs.length⟩ (ds ++ '.' :: fs)

variable {n n' : Numeral}

theorem reads_blank : blank.Reads [] := .whole allDigits_nil finiteBound_pos

theorem Reads.rev_eq (h : n.Reads w) : n.rev = w.reverse := by
  cases h <;> rfl

theorem Reads.isNumeral (h : n.Reads w) (hne : w ≠ []) : IsNumeral w := by
  rcases h with ⟨hds, hlt⟩ | ⟨hds0, hds, hlt, hfs⟩
  · exact ⟨_, .whole hne hds hlt⟩
  · exact ⟨_, .point hds0 hds hlt hfs⟩

/-- A character that is taken keeps the state in step with what has been read. -/
theorem Reads.push? (h : n.Reads w) (hpush : n.push? c = some n') : n'.Reads (w ++ [c]) := by
  unfold Numeral.push? at hpush
  split at hpush
  · next hdigit =>
    have hc := allDigits_singleton.2 hdigit
    rcases h with ⟨hds, hlt⟩ | ⟨hds0, hds, hlt, hfs⟩
    · simp only [← wholeNumber_concat] at hpush
      split at hpush
      · next hbound =>
        obtain rfl := Option.some.inj hpush
        rw [← List.reverse_concat]
        exact .whole (allDigits_append.2 ⟨hds, hc⟩) hbound
      · cases hpush
    · obtain rfl := Option.some.inj hpush
      have hread := Reads.point hds0 hds hlt (allDigits_append.2 ⟨hfs, hc⟩)
      have hchars (ds fs : List Char) : ds ++ '.' :: (fs ++ [c]) = (ds ++ '.' :: fs) ++ [c] := by simp
      rw [hchars, List.reverse_concat, ← List.append_assoc, wholeNumber_concat, List.length_append] at hread
      exact hread
  · split at hpush
    · next hpoint =>
      obtain ⟨rfl, hplaces, hrev⟩ := hpoint
      obtain rfl := Option.some.inj hpush
      rcases h with ⟨hds, hlt⟩ | ⟨hds0, hds, hlt, hfs⟩
      · have hread := Reads.point (by simpa using hrev) hds hlt allDigits_nil
        simpa using hread
      · cases hplaces
    · cases hpush

/-- A character that is not taken would leave no numeral. -/
theorem Reads.exists_push? (h : n.Reads w) (hnumeral : IsNumeral (w ++ [c])) : ∃ n', n.push? c = some n' := by
  obtain ⟨ds, fs, hds0, hds, hlt, hfs, ⟨heq, rfl⟩ | heq⟩ := isNumeral_iff.1 hnumeral
  -- a further digit of the whole part
  · subst heq
    obtain ⟨hw, hc⟩ := allDigits_append.1 hds
    rcases h with ⟨-, -⟩ | ⟨-, -, -, -⟩
    · rw [wholeNumber_concat] at hlt
      exact ⟨_, by rw [Numeral.push?, if_pos (allDigits_singleton.1 hc)]; simp only; rw [if_pos hlt]⟩
    · exact absurd (by simp) hw.not_mem_point
  · rcases List.eq_nil_or_concat' fs with rfl | ⟨fs, d, rfl⟩
    -- the point itself
    · obtain ⟨rfl, hc⟩ := List.append_inj' heq rfl
      obtain rfl := (List.cons.inj hc).1
      rcases h with ⟨-, -⟩ | ⟨-, -, -, -⟩
      · exact ⟨_, by rw [Numeral.push?, if_neg (by decide), if_pos ⟨rfl, rfl, by simpa using hds0⟩]⟩
      · exact absurd (by simp) hds.not_mem_point
    -- a further digit after the point
    · rw [← List.cons_append, ← List.append_assoc] at heq
      obtain ⟨rfl, hc⟩ := List.append_inj' heq rfl
      obtain rfl := (List.cons.inj hc).1
      obtain ⟨-, hd⟩ := allDigits_append.1 hfs
      generalize hw : ds ++ '.' :: fs = w at h
      rcases h with ⟨hds', -⟩ | ⟨-, -, -, -⟩
      · subst hw
        exact absurd (by simp) hds'.not_mem_point
      · exact ⟨_, by rw [Numeral.push?, if_pos (allDigits_singleton.1 hd)]⟩

/-- One more character either keeps the reader in step or leaves no numeral. -/
theorem push?_spec (h : n.Reads w) (c : Char) :
    (∃ n', n.push? c = some n' ∧ n'.Reads (w ++ [c])) ∨ n.push? c = none ∧ ¬ IsNumeral (w ++ [c]) := by
  cases hpush : n.push? c with
  | some n' => exact .inl ⟨n', rfl, h.push? hpush⟩
  | none =>
    refine .inr ⟨rfl, ?_⟩
    intro hnumeral
    obtain ⟨n', hsome⟩ := h.exists_push? hnumeral
    rw [hpush] at hsome
    cases hsome

/-- A numeral that has ended spells the decimal read, and digits after the point leave it below the bound. -/
theorem Reads.spelled (h : n.Reads w) (hne : w ≠ []) :
    Spelled w n.decimal.value ∧ n.decimal.coefficient < finiteBound * 10 ^ n.decimal.places := by
  cases h with
  | whole hds hlt =>
    have hvalue := Spelled.whole hne hds hlt
    refine ⟨?_, ?_⟩
    · simpa [Numeral.decimal, Decimal.value] using hvalue
    · simpa [Numeral.decimal] using hlt
  | @point ds fs hds0 hds hlt hfs =>
    have hvalue := Spelled.point hds0 hds hlt hfs
    simp only [Numeral.decimal, Decimal.value, Option.getD_some]
    rw [wholeNumber_append]
    refine ⟨?_, ?_⟩
    · push_cast
      rwa [add_div, mul_div_cancel_right₀ _ (by positivity)]
    · calc wholeNumber ds * 10 ^ fs.length + wholeNumber fs
          < wholeNumber ds * 10 ^ fs.length + 10 ^ fs.length := Nat.add_lt_add_left (wholeNumber_lt hfs) _
        _ = (wholeNumber ds + 1) * 10 ^ fs.length := by ring
        _ ≤ finiteBound * 10 ^ fs.length := Nat.mul_le_mul_right _ hlt

/-- The double a numeral stands for is the one nearest to what is spelled, and has no sign. -/
theorem Reads.isNearest_value (h : n.Reads w) (hne : w ≠ []) :
    ∃ q, Spelled w q ∧ Binary64.IsNearest q n.value ∧ Number.isNegative n.value = false := by
  obtain ⟨hspelled, hbound⟩ := h.spelled hne
  exact ⟨_, hspelled, Decimal.isNearest_toFloat hbound, Decimal.isNegative_toFloat _⟩

end Numeral

end Calculator
