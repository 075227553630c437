import Calculator.Proofs.Calculation
import Calculator.Proofs.Expr.Bracketing
/-!
# The text of a tree tells the tree

Every tree but a number begins with characters of its own, a number ends where a space or a closing parenthesis stands, and
numbers that are printed alike are the same. So a text is read as a tree in one way at most, whatever comes behind it
(`fullText_append_inj`), and trees with the same text are the same.

Main statement: `text_unambiguous`.
-/

namespace Calculator

open Number

namespace Expr

variable {e e' : Expr} {rest rest' : List Char}

/-- The same shape, the same operators and the same numbers bit for bit. -/
inductive SameAs : Expr → Expr → Prop where
  | number {x y : Float} (bits : x.toBits = y.toBits) : SameAs (.number x) (.number y)
  | slot : SameAs .slot .slot
  | group {inner inner' : Expr} (inside : SameAs inner inner') : SameAs (.group inner) (.group inner')
  | negated {inner inner' : Expr} (inside : SameAs inner inner') : SameAs (.negated inner) (.negated inner')
  | binary {left left' right right' : Expr} (op : Operator) (onLeft : SameAs left left') (onRight : SameAs right right') :
      SameAs (.binary left op right) (.binary left' op right')

theorem SameAs.refl (e : Expr) : e.SameAs e := by
  induction e with
  | number x => exact .number rfl
  | slot => exact .slot
  | group inner ih => exact .group ih
  | negated inner ih => exact .negated ih
  | binary left op right ihl ihr => exact .binary op ihl ihr

theorem SameAs.eq (h : e.SameAs e') : e = e' := by
  induction h with
  | number bits => rw [Binary64.float_ext bits]
  | slot => rfl
  | group _ ih | negated _ ih => rw [ih]
  | binary op _ _ ihl ihr => rw [ihl, ihr]

/-- No number of the tree is a NaN. It may have infinite numbers, and operands may be missing. -/
def Numeric (e : Expr) : Prop := ∀ x ∈ e.numbers, x.isNaN = false

theorem numeric_number {x : Float} : (number x).Numeric ↔ x.isNaN = false := List.forall_mem_singleton

theorem numeric_group {inner : Expr} : (group inner).Numeric ↔ inner.Numeric := .rfl

theorem numeric_negated {inner : Expr} : (negated inner).Numeric ↔ inner.Numeric := .rfl

theorem numeric_binary {l r : Expr} {op : Operator} : (binary l op r).Numeric ↔ l.Numeric ∧ r.Numeric :=
  List.forall_mem_append

/-! ## Where a number ends -/

/-- The characters of a tree's text. -/
def fullText (e : Expr) : List Char := e.bracketed ['\x7b', ' '] [' ', '\x7d']

theorem fullText_group (inner : Expr) (rest : List Char) :
    (group inner).fullText ++ rest = '(' :: (inner.fullText ++ ')' :: rest) := by
  simp [fullText, bracketed]

theorem fullText_negated (inner : Expr) (rest : List Char) :
    (negated inner).fullText ++ rest = '-' :: '(' :: (inner.fullText ++ ')' :: rest) := by
  simp [fullText, bracketed]

theorem fullText_binary (left : Expr) (op : Operator) (right : Expr) (rest : List Char) :
    (binary left op right).fullText ++ rest =
      '\x7b' :: ' ' :: (left.fullText ++ ' ' :: op.symbol :: ' ' :: (right.fullText ++ ' ' :: '\x7d' :: rest)) := by
  simp [fullText, bracketed]

/-- Characters that no number goes on with: none at all, or a space or a closing parenthesis first. -/
def EndsNumber (rest : List Char) : Prop := ∀ c ∈ rest.head?, c = ' ' ∨ c = ')'

theorem endsNumber_nil : EndsNumber [] := nofun

theorem endsNumber_space (rest : List Char) : EndsNumber (' ' :: rest) := by simp [EndsNumber]

theorem endsNumber_parenthesis (rest : List Char) : EndsNumber (')' :: rest) := by simp [EndsNumber]

/-- What follows a number cannot be taken for a part of a longer one. -/
theorem EndsNumber.eq_nil {x : Float} {more : List Char} (h : EndsNumber (more ++ rest))
    (hmore : ∀ c ∈ more, c ∈ Number.chars x) : more = [] := by
  rcases more with _ | ⟨c, more⟩
  · rfl
  · have hc := mem_chars (hmore c (by simp))
    rcases h c rfl with hspace | hparenthesis
    · rw [hspace] at hc
      exact absurd hc (by decide)
    · rw [hparenthesis] at hc
      exact absurd hc (by decide)

theorem chars_append_inj {x y : Float} (hrest : EndsNumber rest) (hrest' : EndsNumber rest')
    (h : Number.chars x ++ rest = Number.chars y ++ rest') : Number.chars x = Number.chars y ∧ rest = rest' := by
  rcases List.append_eq_append_iff.1 h with ⟨more, hchars, rfl⟩ | ⟨more, hchars, rfl⟩
  · obtain rfl := hrest.eq_nil fun c hc => hchars ▸ List.mem_append_right _ hc
    exact ⟨by simpa using hchars.symm, rfl⟩
  · obtain rfl := hrest'.eq_nil fun c hc => hchars ▸ List.mem_append_right _ hc
    exact ⟨by simpa using hchars, rfl⟩

/-- No number is printed as a lone minus sign. -/
theorem chars_ne_minus (x : Float) : Number.chars x ≠ ['-'] := by
  rcases chars_cases x with h | h
  · rw [h]
    intro hminus
    exact not_mem_minus x (hminus ▸ List.mem_singleton_self _)
  · rw [h]
    rintro hminus
    rcases magnitudeChars_cases x with hnumeral | hword | hword
    · exact hnumeral.ne_nil (List.cons.inj hminus).2
    · simp [hword] at hminus
    · simp [hword] at hminus

/-- Numbers begin as no other trees do: a minus sign is followed by no parenthesis. -/
theorem chars_ne_fullText (he : ∀ y, e ≠ .number y) (x : Float) (rest rest' : List Char) :
    Number.chars x ++ rest ≠ e.fullText ++ rest' := by
  obtain ⟨c, cs, hchars⟩ := List.exists_cons_of_ne_nil (chars_ne_nil x)
  have hmem {d : Char} (hd : d ∈ c :: cs) := mem_chars (hchars ▸ hd)
  have hc := hmem List.mem_cons_self
  rw [hchars]
  intro h
  cases e with
  | number y => exact he y rfl
  | slot | group | binary =>
    obtain ⟨rfl, -⟩ := List.cons.inj h
    revert hc
    decide
  | negated inner =>
    obtain ⟨rfl, hcs⟩ := List.cons.inj h
    rcases cs with _ | ⟨d, cs⟩
    · exact chars_ne_minus x hchars
    · obtain ⟨rfl, -⟩ := List.cons.inj hcs
      have hd := hmem (List.mem_cons_of_mem _ List.mem_cons_self)
      revert hd
      decide

/-! ## One way to read a text -/

theorem symbol_injective {op op' : Operator} (h : op.symbol = op'.symbol) : op = op' := by
  cases op <;> cases op' <;> first | rfl | exact absurd h (by decide)

/-- Two trees are the same if their texts are, whatever comes behind, and then the same comes behind. -/
theorem fullText_append_inj (he : e.Numeric) (he' : e'.Numeric) (hrest : EndsNumber rest) (hrest' : EndsNumber rest')
    (h : e.fullText ++ rest = e'.fullText ++ rest') : e = e' ∧ rest = rest' := by
  induction e generalizing e' rest rest' with
  | number x =>
    cases e' with
    | number y =>
      obtain ⟨hchars, rfl⟩ := chars_append_inj hrest hrest' h
      obtain rfl := chars_injective (numeric_number.1 he) (numeric_number.1 he') hchars
      exact ⟨rfl, rfl⟩
    | slot | group | negated | binary => exact absurd h (chars_ne_fullText (by simp) x rest rest')
  | slot =>
    cases e' with
    | number y => exact absurd h.symm (chars_ne_fullText (by simp) y rest' rest)
    | slot => exact ⟨rfl, (List.cons.inj h).2⟩
    | group | negated | binary => simp [fullText, bracketed] at h
  | group inner ih =>
    cases e' with
    | number y => exact absurd h.symm (chars_ne_fullText (by simp) y rest' rest)
    | group inner' =>
      rw [fullText_group, fullText_group, List.cons.injEq] at h
      obtain ⟨rfl, hbehind⟩ := ih (numeric_group.1 he) (numeric_group.1 he') (endsNumber_parenthesis _)
        (endsNumber_parenthesis _) h.2
      exact ⟨rfl, (List.cons.inj hbehind).2⟩
    | slot | negated | binary => simp [fullText, bracketed] at h
  | negated inner ih =>
    cases e' with
    | number y => exact absurd h.symm (chars_ne_fullText (by simp) y rest' rest)
    | negated inner' =>
      rw [fullText_negated, fullText_negated, List.cons.injEq, List.cons.injEq] at h
      obtain ⟨rfl, hbehind⟩ := ih (numeric_negated.1 he) (numeric_negated.1 he') (endsNumber_parenthesis _)
        (endsNumber_parenthesis _) h.2.2
      exact ⟨rfl, (List.cons.inj hbehind).2⟩
    | slot | group | binary => simp [fullText, bracketed] at h
  | binary left op right ihl ihr =>
    cases e' with
    | number y => exact absurd h.symm (chars_ne_fullText (by simp) y rest' rest)
    | binary left' op' right' =>
      obtain ⟨hl, hr⟩ := numeric_binary.1 he
      obtain ⟨hl', hr'⟩ := numeric_binary.1 he'
      rw [fullText_binary, fullText_binary, List.cons.injEq, List.cons.injEq] at h
      obtain ⟨rfl, hop⟩ := ihl hl hl' (endsNumber_space _) (endsNumber_space _) h.2.2
      simp only [List.cons.injEq, true_and] at hop
      obtain ⟨rfl, hbehind⟩ := ihr hr hr' (endsNumber_space _) (endsNumber_space _) hop.2
      rw [symbol_injective hop.1]
      exact ⟨rfl, by simpa using hbehind⟩
    | slot | group | negated => simp [fullText, bracketed] at h

/-- Trees with the same text are the same. -/
theorem text_injective (he : e.Numeric) (he' : e'.Numeric) (h : e.text = e'.text) : e = e' := by
  have hfull : e.fullText ++ [] = e'.fullText ++ [] := by
    rw [fullText, fullText, ← toList_text, ← toList_text, h]
  exact (fullText_append_inj he he' endsNumber_nil endsNumber_nil hfull).1

/-! ## The main statement -/

/-- The text of any tree, written from a list of pieces, is the one put together by recursion. Trees without NaNs have the
same text exactly if they have the same shape, the same operators and the same numbers bit for bit. So the two zeros are
shown differently, a negated group is no negative number, and a chain of two operators shows how it is grouped. -/
theorem text_unambiguous :
    (∀ e : Expr, e.text = e.shown) ∧
    (∀ e e' : Expr, e.Numeric → e'.Numeric → (e.text = e'.text ↔ e.SameAs e')) ∧
    (number 0).text ≠ (number (-0)).text ∧
    (∀ x : Float, x.isNaN = false → (negated (number x)).text ≠ (number (-x)).text) ∧
    (∀ (a b c : Expr) (op op' : Operator), a.Numeric → b.Numeric → c.Numeric →
      (binary (binary a op b) op' c).text ≠ (binary a op (binary b op' c)).text) := by
  refine ⟨text_eq_shown, ?_, ?_, ?_, ?_⟩
  · intro e e' he he'
    constructor
    · intro h
      rw [text_injective he he' h]
      exact .refl e'
    · intro h
      rw [h.eq]
  · decide +kernel
  · intro x hx h
    cases text_injective (numeric_negated.2 (numeric_number.2 hx)) (numeric_number.2 (Binary64.isNaN_neg hx)) h
  · intro a b c op op' ha hb hc h
    have htrees := text_injective (numeric_binary.2 ⟨numeric_binary.2 ⟨ha, hb⟩, hc⟩)
      (numeric_binary.2 ⟨ha, numeric_binary.2 ⟨hb, hc⟩⟩) h
    have hsize := congrArg walkLength (binary.inj htrees).1
    simp only [walkLength] at hsize
    omega

/-- `{ -(1) - X }` and `{ -1 - X }`, and the two groupings of `1 - 2 / -0`. -/
theorem text_unambiguous_minus_signs :
    ((binary (negated (number 1)) .minus slot).Numeric ∧ (binary (number (-1)) .minus slot).Numeric ∧
      (binary (negated (number 1)) .minus slot).text ≠ (binary (number (-1)) .minus slot).text) ∧
    ((1 : Float).isNaN = false ∧ (negated (number 1)).text ≠ (number (-1)).text) ∧
    (number 1).Numeric ∧ (number 2).Numeric ∧ (number (-0)).Numeric ∧
      (binary (binary (number 1) .minus (number 2)) .divide (number (-0))).text ≠
        (binary (number 1) .minus (binary (number 2) .divide (number (-0)))).text := by
  obtain ⟨-, hsame, -, hnegated, hgrouped⟩ := text_unambiguous
  have hone : (number 1).Numeric := numeric_number.2 (by decide)
  have htwo : (number 2).Numeric := numeric_number.2 (by decide)
  have hzero : (number (-0)).Numeric := numeric_number.2 (by decide)
  have hslot : slot.Numeric := nofun
  have hleft : (binary (negated (number 1)) .minus slot).Numeric := numeric_binary.2 ⟨numeric_negated.2 hone, hslot⟩
  have hright : (binary (number (-1)) .minus slot).Numeric :=
    numeric_binary.2 ⟨numeric_number.2 (Binary64.isNaN_neg (by decide)), hslot⟩
  refine ⟨⟨hleft, hright, ?_⟩, ⟨by decide, hnegated 1 (by decide)⟩, hone, htwo, hzero,
    hgrouped _ _ _ .minus .divide hone htwo hzero⟩
  intro h
  rcases (hsame _ _ hleft hright).1 h with _ | _ | _ | _ | ⟨-, hinside, -⟩
  cases hinside

end Expr

end Calculator
