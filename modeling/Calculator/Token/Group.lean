import Calculator.Token
/-!
# Finding where a group ends

The tokens after an opening parenthesis are searched for the closing one that belongs to it:
the first that no opening parenthesis among them needs.
-/

namespace Calculator

/-- Searches on from the token with the given index, with `opened` groups to be closed first. -/
def closeFrom : (index opened : Nat) → List Token → Option Nat
  | _, _, [] => none
  | index, opened, .leftParen :: ts => closeFrom (index + 1) (opened + 1) ts
  | index, 0, .rightParen :: _ => some index
  | index, opened + 1, .rightParen :: ts => closeFrom (index + 1) opened ts
  | index, opened, _ :: ts => closeFrom (index + 1) opened ts

/-- The index of the closing parenthesis of a group whose opening one stands just before the tokens. -/
def matchingClose? (tokens : List Token) : Option Nat := closeFrom 0 0 tokens

/-- The opening and the closing parentheses pair up. -/
def Balanced (tokens : List Token) : Prop :=
  tokens.count .leftParen = tokens.count .rightParen
    ∧ ∀ before, before <+: tokens → before.count .rightParen ≤ before.count .leftParen

/-- The closing parenthesis found is one of the tokens. -/
theorem closeFrom_lt {index opened i : Nat} {ts : List Token} (h : closeFrom index opened ts = some i) :
    i < index + ts.length := by
  induction ts generalizing index opened with
  | nil => cases opened <;> simp [closeFrom] at h
  | cons t ts ih =>
    cases t <;> cases opened <;> simp only [closeFrom, Option.some.injEq] at h <;> simp only [List.length_cons] <;>
      first
        | omega
        | have := ih h
          omega

theorem matchingClose?_lt {i : Nat} {ts : List Token} (h : matchingClose? ts = some i) : i < ts.length := by
  have := closeFrom_lt h
  omega

end Calculator
