import Calculator.Token.Group
import Mathlib.Data.List.Basic
/-!
# The search for the end of a group

`closeFrom_of_none` says what a search knows after tokens it has passed over: how far it is, and
how many groups are still to be closed, which is the number of opening parentheses so far less that
of the closing ones and never falls below zero. `closeFrom_eq_some` says where a search stops. From both: what is cut
out before the closing parenthesis that is found is balanced (`balanced_take_of_matchingClose?`).

Main statement: `search_finds_matching_close`.
-/

namespace Calculator

/-- Tokens other than parentheses leave the counter alone. -/
theorem closeFrom_cons_of_ne {t : Token} (hl : t ≠ .leftParen) (hr : t ≠ .rightParen) (index opened : Nat)
    (ts : List Token) : closeFrom index opened (t :: ts) = closeFrom (index + 1) opened ts := by
  cases t <;> first | rfl | contradiction

/-! ## Tokens passed over -/

/-- A search that has passed over tokens goes on behind them, with the opening parentheses among them
less the closing ones added to its counter. The difference is never below zero. -/
theorem closeFrom_of_none {index opened : Nat} {before : List Token} (h : closeFrom index opened before = none) :
    before.count .rightParen ≤ opened + before.count .leftParen ∧
      ∀ after, closeFrom index opened (before ++ after) =
        closeFrom (index + before.length) (opened + before.count .leftParen - before.count .rightParen) after := by
  induction before generalizing index opened with
  | nil => simp
  | cons t before ih =>
    have hindex : index + (t :: before).length = index + 1 + before.length := by simp only [List.length_cons]; omega
    by_cases hl : t = .leftParen
    · subst hl
      obtain ⟨hle, hon⟩ := ih (by simpa only [closeFrom] using h)
      have hopen : (Token.leftParen :: before).count .leftParen = before.count .leftParen + 1 := by simp
      have hclose : (Token.leftParen :: before).count .rightParen = before.count .rightParen := by simp
      refine ⟨by omega, ?_⟩
      intro after
      rw [hindex, hopen, hclose, List.cons_append, closeFrom, hon,
        show opened + 1 + before.count .leftParen = opened + (before.count .leftParen + 1) by omega]
    by_cases hr : t = .rightParen
    · subst hr
      -- a counter at zero would have stopped the search here
      cases opened with
      | zero => simp [closeFrom] at h
      | succ opened =>
        obtain ⟨hle, hon⟩ := ih (by simpa only [closeFrom] using h)
        have hopen : (Token.rightParen :: before).count .leftParen = before.count .leftParen := by simp
        have hclose : (Token.rightParen :: before).count .rightParen = before.count .rightParen + 1 := by simp
        refine ⟨by omega, ?_⟩
        intro after
        rw [hindex, hopen, hclose, List.cons_append, closeFrom, hon,
          show opened + 1 + before.count .leftParen - (before.count .rightParen + 1) =
            opened + before.count .leftParen - before.count .rightParen by omega]
    · rw [closeFrom_cons_of_ne hl hr] at h
      obtain ⟨hle, hon⟩ := ih h
      rw [List.count_cons_of_ne hl, List.count_cons_of_ne hr]
      refine ⟨hle, ?_⟩
      intro after
      rw [hindex, List.cons_append, closeFrom_cons_of_ne hl hr, hon]

/-! ## Where a search stops -/

/-- A search stops at a closing parenthesis, having passed over what is before it with no group left
to be closed. -/
theorem closeFrom_eq_some {index opened i : Nat} {ts : List Token} (h : closeFrom index opened ts = some i) :
    ∃ before after, ts = before ++ .rightParen :: after ∧ i = index + before.length ∧
      closeFrom index opened before = none ∧ before.count .rightParen = opened + before.count .leftParen := by
  induction ts generalizing index opened with
  | nil => simp [closeFrom] at h
  | cons t ts ih =>
    by_cases hl : t = .leftParen
    · subst hl
      obtain ⟨before, after, rfl, rfl, hnone, hcount⟩ := ih (by simpa only [closeFrom] using h)
      refine ⟨.leftParen :: before, after, rfl, by simp only [List.length_cons]; omega, ?_, ?_⟩
      · simpa only [closeFrom] using hnone
      · simp only [List.count_cons_self, List.count_cons_of_ne (show Token.leftParen ≠ .rightParen by simp)]
        omega
    by_cases hr : t = .rightParen
    · subst hr
      cases opened with
      | zero =>
        simp only [closeFrom, Option.some.injEq] at h
        exact ⟨[], ts, rfl, by simp [h], rfl, rfl⟩
      | succ opened =>
        obtain ⟨before, after, rfl, rfl, hnone, hcount⟩ := ih (by simpa only [closeFrom] using h)
        refine ⟨.rightParen :: before, after, rfl, by simp only [List.length_cons]; omega, ?_, ?_⟩
        · simpa only [closeFrom] using hnone
        · simp only [List.count_cons_self, List.count_cons_of_ne (show Token.rightParen ≠ .leftParen by simp)]
          omega
    · rw [closeFrom_cons_of_ne hl hr] at h
      obtain ⟨before, after, rfl, rfl, hnone, hcount⟩ := ih h
      refine ⟨t :: before, after, rfl, by simp only [List.length_cons]; omega, ?_, ?_⟩
      · rwa [closeFrom_cons_of_ne hl hr]
      · rwa [List.count_cons_of_ne hl, List.count_cons_of_ne hr]

/-- The tokens inside a group, its closing parenthesis and the tokens after it. -/
theorem matchingClose?_eq_some {i : Nat} {ts : List Token} (h : matchingClose? ts = some i) :
    ts = ts.take i ++ .rightParen :: ts.drop (i + 1) := by
  obtain ⟨before, after, rfl, rfl, -, -⟩ := closeFrom_eq_some h
  simp

/-- The end of a group is found whatever follows. -/
theorem closeFrom_append {index opened i : Nat} {ts : List Token} (h : closeFrom index opened ts = some i)
    (us : List Token) : closeFrom index opened (ts ++ us) = some i := by
  obtain ⟨before, after, rfl, rfl, hnone, hcount⟩ := closeFrom_eq_some h
  rw [List.append_assoc, (closeFrom_of_none hnone).2, hcount, Nat.sub_self]
  rfl

/-- A search passes over tokens that close, up to none of them, more groups than are open there. -/
theorem closeFrom_eq_none_iff {index opened : Nat} {ts : List Token} :
    closeFrom index opened ts = none ↔
      ∀ before, before <+: ts → before.count .rightParen ≤ opened + before.count .leftParen := by
  constructor
  · rintro h before ⟨after, rfl⟩
    cases hbefore : closeFrom index opened before with
    | none => exact (closeFrom_of_none hbefore).1
    | some i =>
      rw [closeFrom_append hbefore] at h
      cases h
  · intro h
    cases hclose : closeFrom index opened ts with
    | none => rfl
    | some i =>
      obtain ⟨before, after, rfl, -, -, hcount⟩ := closeFrom_eq_some hclose
      have hle := h (before ++ [.rightParen]) ⟨after, by simp⟩
      simp only [List.count_append, List.count_singleton_self, List.count_cons_of_ne (show Token.rightParen ≠ .leftParen by simp),
        List.count_nil] at hle
      omega

/-! ## Balanced tokens -/

/-- Behind tokens that close as many groups as they open, balanced tokens stay balanced. -/
theorem Balanced.of_append {ts us : List Token} (h : Balanced (us ++ ts)) (hus : us.count .leftParen = us.count .rightParen) :
    Balanced ts := by
  obtain ⟨hcount, hprefix⟩ := h
  rw [List.count_append, List.count_append] at hcount
  refine ⟨by omega, ?_⟩
  intro before hbefore
  have hle := hprefix (us ++ before) ((List.prefix_append_right_inj us).2 hbefore)
  rw [List.count_append, List.count_append] at hle
  omega

theorem Balanced.ne_rightParen {t : Token} {ts : List Token} (h : Balanced (t :: ts)) : t ≠ .rightParen := by
  rintro rfl
  have hle := h.2 [.rightParen] ⟨ts, rfl⟩
  simp at hle

/-- A group that balanced tokens open is closed. -/
theorem Balanced.exists_close {ts : List Token} (h : Balanced (.leftParen :: ts)) : ∃ i, matchingClose? ts = some i := by
  by_contra hnone
  have hle := closeFrom_eq_none_iff.1 (Option.eq_none_iff_forall_ne_some.2 fun i hi => hnone ⟨i, hi⟩) ts (List.prefix_refl ts)
  have hcount := h.1
  rw [List.count_cons_self, List.count_cons_of_ne (by simp)] at hcount
  omega

/-- The tokens before the closing parenthesis that is found are balanced. -/
theorem balanced_take_of_matchingClose? {i : Nat} {ts : List Token} (h : matchingClose? ts = some i) :
    Balanced (ts.take i) := by
  obtain ⟨before, after, rfl, rfl, hnone, hcount⟩ := closeFrom_eq_some h
  have hle := closeFrom_eq_none_iff.1 hnone
  simp only [Nat.zero_add] at hcount hle
  rw [Nat.zero_add, List.take_left]
  exact ⟨hcount.symm, hle⟩

/-- Tokens are balanced if a closing parenthesis behind them is the first that none of them needs. -/
theorem balanced_iff {ts : List Token} : Balanced ts ↔ matchingClose? (ts ++ [.rightParen]) = some ts.length := by
  constructor
  · rintro ⟨hcount, hprefix⟩
    have hnone : closeFrom 0 0 ts = none := closeFrom_eq_none_iff.2 (by simpa using hprefix)
    rw [matchingClose?, (closeFrom_of_none hnone).2, hcount, Nat.zero_add, Nat.zero_add, Nat.sub_self]
    rfl
  · intro h
    have hbalanced := balanced_take_of_matchingClose? h
    rwa [List.take_left] at hbalanced

instance (ts : List Token) : Decidable (Balanced ts) := decidable_of_iff _ balanced_iff.symm

/-- A closing parenthesis is found exactly if the tokens before it are balanced. -/
theorem matchingClose?_eq_some_iff {i : Nat} {ts : List Token} :
    matchingClose? ts = some i ↔ ts[i]? = some .rightParen ∧ Balanced (ts.take i) := by
  constructor
  · intro h
    refine ⟨?_, balanced_take_of_matchingClose? h⟩
    obtain ⟨before, after, rfl, rfl, -, -⟩ := closeFrom_eq_some h
    simp
  · rintro ⟨hclose, hbalanced⟩
    obtain ⟨hlt, -⟩ := List.getElem?_eq_some_iff.1 hclose
    have hsplit : ts.take i ++ [.rightParen] ++ ts.drop (i + 1) = ts := by
      rw [← Option.toList_some, ← hclose, ← List.take_add_one, List.take_append_drop]
    have hfound := closeFrom_append (balanced_iff.1 hbalanced) (ts.drop (i + 1))
    rwa [hsplit, List.length_take_of_le (Nat.le_of_lt hlt)] at hfound

/-- A search that has not stopped yet counts how many more groups were opened than closed. -/
theorem matchingClose?_append_of_none {before : List Token} (h : matchingClose? before = none) :
    ∃ opened : Nat, (opened : Int) = before.count .leftParen - before.count .rightParen ∧
      ∀ after, matchingClose? (before ++ after) = closeFrom before.length opened after := by
  obtain ⟨hle, hon⟩ := closeFrom_of_none h
  rw [Nat.zero_add] at hle
  refine ⟨before.count .leftParen - before.count .rightParen, by omega, ?_⟩
  intro after
  rw [matchingClose?, hon after, Nat.zero_add, Nat.zero_add]

/-! ## The main statement -/

/-- The search finds a closing parenthesis exactly if the tokens before it are balanced, which holds of one place at most,
and finds none exactly if no part of the tokens from their start closes more groups than it opens. At each point before it
stops its counter is the number of groups opened less that of groups closed, so this is never below zero; and where it has
stopped, tokens behind make no difference. -/
theorem search_finds_matching_close (ts : List Token) :
    (∀ i, matchingClose? ts = some i ↔ ts[i]? = some .rightParen ∧ Balanced (ts.take i)) ∧
    (∀ i j, ts[i]? = some .rightParen ∧ Balanced (ts.take i) → ts[j]? = some .rightParen ∧ Balanced (ts.take j) → i = j) ∧
    (matchingClose? ts = none ↔ ∀ before, before <+: ts → before.count .rightParen ≤ before.count .leftParen) ∧
    (∀ before, before <+: ts → matchingClose? before = none →
      ∃ opened : Nat, (opened : Int) = before.count .leftParen - before.count .rightParen ∧
        ∀ after, matchingClose? (before ++ after) = closeFrom before.length opened after) ∧
    ∀ i, matchingClose? ts = some i → ∀ us, matchingClose? (ts ++ us) = some i := by
  refine ⟨fun i => matchingClose?_eq_some_iff, ?_, ?_, ?_, ?_⟩
  · intro i j hi hj
    rw [← matchingClose?_eq_some_iff] at hi hj
    exact Option.some.inj (hi.symm.trans hj)
  · rw [matchingClose?, closeFrom_eq_none_iff]
    simp only [Nat.zero_add]
  · intro before _ hnone
    exact matchingClose?_append_of_none hnone
  · intro i h us
    exact closeFrom_append h us

end Calculator
