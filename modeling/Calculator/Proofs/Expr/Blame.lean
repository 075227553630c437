import Calculator.Proofs.Expr.Parsing
/-!
# Errors point at the right token

A build fails at the first token that fits nowhere, which takes two halves. The tokens before that place can still
become an expression, since a partial tree is derived from the tokens taken so far (`Awaits`, `Upto`). The token at
that place cannot be read by a cursor (`Misfit`), and a cursor reads every expression, so no longer prefix is viable.

A group is built from its own tokens only, so its errors are carried out to the tokens around it (`exists_misfit`):
where the tokens of a group end, its closing parenthesis stands (`Slice`).

Main statement: `error_after_viable_prefix`.
-/

namespace Calculator

open BuildState Cursor

variable {ts us p : List Token} {x : Expected} {c : Cursor} {err : ParseError}

/-! ## Viable prefixes -/

/-- The tokens, with some more behind them, are an expression. -/
def Viable (ts : List Token) : Prop := ∃ more e, Derives .sum (ts ++ more) e

/-- Of the prefixes of the tokens that are viable, the longest. -/
structure LongestViable (p ts : List Token) : Prop where
  isPrefix : p <+: ts
  viable : Viable p
  longest : ∀ q, q <+: ts → Viable q → q <+: p

theorem viable_nil : Viable [] := ⟨_, _, .ofProduct (.ofOperand (.number 0))⟩

/-- Nothing viable goes on with a token that cannot be read. -/
theorem not_viable {t : Token} (hp : (Cursor.mk .first 0).reads p = some c) (ht : c.read t = none) (s : List Token) :
    ¬Viable (p ++ t :: s) := by
  rintro ⟨more, e, he⟩
  have hread : (Cursor.mk .first 0).reads (p ++ t :: s ++ more) = some ⟨.operator, 0⟩ := he.reads (.inl rfl)
  rw [List.append_assoc, List.cons_append, reads_eq_none hp ht] at hread
  cases hread

/-! ## Tokens that fit nowhere -/

/-- The error at a token out of place. -/
def Expected.blame : Expected → Token → ParseError
  | .unsigned, t => .invalidAfterUnaryMinus t
  | .first, t | .operand, t | .operator, t => .unexpectedToken t

/-- The error at a token that cannot be read, which may also be the end of a group that lacks something. -/
def Cursor.blame (c : Cursor) (t : Token) : ParseError :=
  if t = .rightParen ∧ 0 < c.opened then
    if c.expected = .first then .emptyParenthesis else .unexpectedEnd
  else c.expected.blame t

/-- The tokens to come do not go on with what was read, and the error says how. -/
inductive Misfit (c : Cursor) : List Token → ParseError → Prop where
  | ended (lacking : c.expected = .operand ∨ c.expected = .unsigned) : Misfit c [] .unexpectedEnd
  | token {t : Token} {rest : List Token} (unread : c.read t = none) : Misfit c (t :: rest) (c.blame t)

theorem longestViable_of_misfit {rest : List Token} (hp : Viable p) (hread : (Cursor.mk .first 0).reads p = some c)
    (h : Misfit c rest err) : LongestViable p (p ++ rest) := by
  refine ⟨List.prefix_append p rest, hp, ?_⟩
  intro q hq hviable
  cases h with
  | ended _ => rwa [List.append_nil] at hq
  | @token t rest unread =>
    rcases List.prefix_or_prefix_of_prefix hq (List.prefix_append p (t :: rest)) with hqp | ⟨s, rfl⟩
    · exact hqp
    · rcases s with _ | ⟨t', s⟩
      · exact ⟨[], by simp⟩
      · obtain ⟨rfl, -⟩ := List.cons_prefix_cons.1 ((List.prefix_append_right_inj p).1 hq)
        exact absurd hviable (not_viable hread unread s)

/-! ## Where operands may stand -/

/-- Behind the tokens, which leave no group open, an operand may stand. -/
structure Awaits (us : List Token) (x : Expected) : Prop where
  place : x = .first ∨ x = .operand
  reads : ∀ opened, (Cursor.mk .first opened).reads us = some ⟨x, opened⟩
  completes : ∀ {vs e}, Derives .operand vs e → ∃ e', Derives .sum (us ++ vs) e'

theorem awaits_nil : Awaits [] .first :=
  ⟨.inl rfl, fun _ => rfl, fun hvs => ⟨_, .ofProduct (.ofOperand hvs)⟩⟩

/-- The tokens of a partial tree are read, up to where its next operand may begin. -/
theorem PartialTree.Reads.reads {p : PartialTree} (h : p.Reads us) (hc : c.expected = .first ∨ c.expected = .operand) :
    c.reads us = some ⟨.operand, c.opened⟩ := by
  cases h with
  | loose _ left | tight _ left => rw [reads_concat (left.reads hc), read_ofOperator]
  | @opened ts us l m op o _ _ left middle =>
    have hmiddle : (Cursor.mk .operand c.opened).reads us = some ⟨.operator, c.opened⟩ := middle.reads (.inr rfl)
    have hboth : c.reads (ts ++ .ofOperator op :: us) = some ⟨.operator, c.opened⟩ := by
      rw [reads_append, left.reads hc, Option.bind_some, reads_cons, read_ofOperator, Option.bind_some, hmiddle]
    rw [reads_concat hboth, read_ofOperator]

theorem PartialTree.Reads.awaits {p : PartialTree} (h : p.Reads us) : Awaits us .operand :=
  ⟨.inr rfl, fun _ => h.reads (.inl rfl), fun hvs => ⟨_, h.complete hvs⟩⟩

/-- The tokens are viable and leave no group open, and `x` may come next. If a group may, then with any viable
beginning. -/
structure Upto (us : List Token) (x : Expected) : Prop where
  reads : ∀ opened, (Cursor.mk .first opened).reads us = some ⟨x, opened⟩
  viable : Viable us
  group : x ≠ .operator → ∀ {vs}, Viable vs → Viable (us ++ .leftParen :: vs)

namespace Awaits

theorem upto (h : Awaits us x) : Upto us x := by
  refine ⟨h.reads, ?_, ?_⟩
  · obtain ⟨e, he⟩ := h.completes (.number 0)
    exact ⟨_, e, he⟩
  · rintro - vs ⟨more, e, he⟩
    obtain ⟨e', he'⟩ := h.completes (.group he)
    exact ⟨more ++ [.rightParen], e', by simpa using he'⟩

theorem upto_minus (h : Awaits us x) : Upto (us ++ [.minus]) .unsigned := by
  refine ⟨?_, ?_, ?_⟩
  · intro opened
    rw [reads_concat (h.reads opened)]
    rcases h.place with rfl | rfl <;> rfl
  · obtain ⟨e, he⟩ := h.completes (.minusNumber 0)
    exact ⟨[.number 0], e, by simpa using he⟩
  · rintro - vs ⟨more, e, he⟩
    obtain ⟨e', he'⟩ := h.completes (.minusGroup he)
    exact ⟨more ++ [.rightParen], e', by simpa using he'⟩

theorem upto_operand (h : Awaits us x) {vs : List Token} {e : Expr} (hvs : Derives .operand vs e) :
    Upto (us ++ vs) .operator := by
  refine ⟨?_, ?_, fun hne => absurd rfl hne⟩
  · intro opened
    rw [reads_append, h.reads opened, Option.bind_some, hvs.reads h.place]
  · obtain ⟨e', he'⟩ := h.completes hvs
    exact ⟨[], e', by rwa [List.append_nil]⟩

end Awaits

/-! ## Where a build fails -/

/-- Why a build fails at its remaining tokens, where `x` may come next. It knows of no tokens but its own. -/
inductive Stuck (build : GroupBuilder) (x : Expected) : List Token → ParseError → Prop where
  | ended (lacking : x = .operand ∨ x = .unsigned) : Stuck build x [] .unexpectedEnd
  | token {t : Token} {rest : List Token} (unread : read ⟨x, 0⟩ t = none) : Stuck build x (t :: rest) (x.blame t)
  | group {rest : List Token} {err : ParseError} (place : x ≠ .operator) (fails : readGroup build rest = .error err) :
      Stuck build x (.leftParen :: rest) err

section Steps

variable {build : GroupBuilder}

theorem readGroup_eq_error (h : readGroup build ts = .error err) :
    err = .unmatchedParenthesis ∨ (err = .emptyParenthesis ∧ ∃ after, ts = .rightParen :: after) ∨
      ∃ inner after, ts = inner ++ .rightParen :: after ∧ closeFrom 0 0 inner = none ∧ build inner = .error err := by
  unfold readGroup at h
  split at h
  · cases h
    exact .inl rfl
  · next hclose =>
    cases h
    exact .inr (.inl ⟨rfl, _, matchingClose?_eq_some hclose⟩)
  · next close _ hclose =>
    split at h
    · cases h
    · next inner =>
      cases h
      obtain ⟨before, after, rfl, rfl, hnone, -⟩ := closeFrom_eq_some hclose
      rw [Nat.zero_add, List.take_left] at inner
      exact .inr (.inr ⟨before, after, rfl, hnone, inner⟩)

theorem map_readGroup_eq_error {wrap : Expr → Expr}
    (h : ((readGroup build ts).map fun (inner, rest) => (wrap inner, rest)) = .error err) :
    readGroup build ts = .error err := by
  cases hgroup : readGroup build ts with
  | error e =>
    rw [hgroup] at h
    exact h
  | ok p =>
    rw [hgroup] at h
    cases h

/-- An operand fails at its first token, or behind its unary minus. -/
theorem firstOperand_eq_error (h : firstOperand build ts = .error err) (hx : x = .operand ∨ x = .first ∧ ts ≠ []) :
    Stuck build x ts err ∨ ∃ rest, ts = .minus :: rest ∧ Stuck build .unsigned rest err := by
  rcases ts with _ | ⟨t, rest⟩
  · cases h
    exact .inl (.ended (.inl (hx.resolve_right fun hfirst => hfirst.2 rfl)))
  have hplace : x = .first ∨ x = .operand := hx.elim .inr fun hfirst => .inl hfirst.1
  cases t with
  | number value => cases h
  | leftParen =>
    left
    refine .group ?_ (map_readGroup_eq_error h)
    rcases hplace with rfl | rfl <;> simp
  | plus | multiply | divide | rightParen =>
    left
    cases h
    rcases hplace with rfl | rfl <;> exact .token rfl
  | minus =>
    rcases rest with _ | ⟨t, rest⟩
    · cases h
      exact .inr ⟨[], rfl, .ended (.inr rfl)⟩
    cases t with
    | number value => cases h
    | leftParen => exact .inr ⟨_, rfl, .group (by simp) (map_readGroup_eq_error h)⟩
    | plus | minus | multiply | divide | rightParen =>
      cases h
      exact .inr ⟨_, rfl, .token rfl⟩

theorem read_operator_eq_none {t : Token} (h : t.operator? = none) : read ⟨.operator, 0⟩ t = none := by
  cases t with
  | number value | leftParen | rightParen => rfl
  | plus | minus | multiply | divide => cases h

theorem Sound.awaits {root : Option PartialTree} {rest : List Token} (h : Sound ts (.inProgress root rest)) :
    ∃ us x, ts = us ++ rest ∧ Awaits us x ∧ (x = .first → root = none) := by
  cases h with
  | fresh => exact ⟨[], .first, rfl, awaits_nil, fun _ => rfl⟩
  | going reads all => exact ⟨_, .operand, all, reads.awaits, by simp⟩

/-- A step that fails is stuck at its operand or behind it. -/
theorem stuck_of_advance (hb : ∀ ts e, ts ≠ [] → build ts = .ok e → Derives .sum ts e) {root : Option PartialTree}
    {rest : List Token} (hs : Sound ts (.inProgress root rest))
    (h : (inProgress root rest).advance build = .failed err) :
    ∃ us x tail, ts = us ++ tail ∧ Upto us x ∧ Stuck build x tail err := by
  obtain ⟨us, x, rfl, hus, hfirst⟩ := hs.awaits
  have hadv := advance_cases build root rest
  rw [h] at hadv
  cases hadv with
  | noOperand hfails =>
    have hx : x = .operand ∨ x = .first ∧ rest ≠ [] := by
      rcases hus.place with rfl | rfl
      -- a build of nothing does not fail
      · refine .inr ⟨rfl, ?_⟩
        rintro rfl
        rw [hfirst rfl] at h
        cases h
      · exact .inl rfl
    obtain hstuck | ⟨tail, rfl, hstuck⟩ := firstOperand_eq_error hfails hx
    · exact ⟨us, x, rest, rfl, hus.upto, hstuck⟩
    · exact ⟨us ++ [.minus], .unsigned, tail, by simp, hus.upto_minus, hstuck⟩
  | @noOperator vs tail e t hvs hnone =>
    have hstuck : Stuck build .operator (t :: tail) (.unexpectedToken t) := .token (read_operator_eq_none hnone)
    exact ⟨us ++ vs, .operator, t :: tail, by simp, hus.upto_operand (hvs.derives hb), hstuck⟩

/-- A run that fails does so in one of its steps. -/
theorem stuck_of_run (hb : ∀ ts e, ts ≠ [] → build ts = .ok e → Derives .sum ts e) {s : BuildState} {n : Nat}
    (hs : Sound ts s) (hstart : s ≠ .failed err) (h : s.run build n = .failed err) :
    ∃ us x tail, ts = us ++ tail ∧ Upto us x ∧ Stuck build x tail err := by
  induction n generalizing s with
  | zero => exact absurd h hstart
  | succ n ih =>
    rw [run_succ] at h
    by_cases hadv : s.advance build = .failed err
    · cases s with
      | inProgress root rest => exact stuck_of_advance hb hs hadv
      | done tree => cases hadv
      | failed e => exact absurd hadv hstart
    · exact ih (sound_advance hb hs) hadv h

end Steps

/-- A build that fails is stuck behind viable tokens. -/
theorem exists_stuck {levels : Nat} (h : buildWithin (levels + 1) ts = .error err) :
    ∃ us x tail, ts = us ++ tail ∧ Upto us x ∧ Stuck (buildWithin levels) x tail err :=
  stuck_of_run (fun _ _ hne hbuilt => derives_of_buildWithin hne hbuilt) .fresh (by simp) (run_eq_failed h)

/-! ## From inside a group to the whole -/

/-- Tokens that are built on their own, and those after them: all there are, or the tokens of a group, which is the last of
so many open groups. -/
inductive Slice : (opened : Nat) → (inner after : List Token) → Prop where
  | whole (ts : List Token) : Slice 0 ts []
  | group {opened : Nat} {inner : List Token} (closes : closeFrom 0 0 inner = none) (after : List Token) :
      Slice (opened + 1) inner (.rightParen :: after)

namespace Slice

variable {opened : Nat} {after rest : List Token}

theorem misfit_ended (h : Slice opened ts after) (hx : x = .operand ∨ x = .unsigned) :
    Misfit ⟨x, opened⟩ after .unexpectedEnd := by
  cases h with
  | whole => exact .ended hx
  | group => rcases hx with rfl | rfl <;> exact .token rfl

/-- The tokens of a group hold no closing parenthesis that none of them opens. -/
theorem ne_rightParen {t : Token} (h : Slice (opened + 1) (us ++ t :: rest) after)
    (hus : (Cursor.mk .first 0).reads us = some ⟨x, 0⟩) : t ≠ .rightParen := by
  rintro rfl
  cases h with
  | group closes =>
    rw [closeFrom_of_reads hus, closeFrom] at closes
    cases closes

theorem misfit_token {t : Token} (h : Slice opened (us ++ t :: rest) after) (hus : Upto us x)
    (ht : read ⟨x, 0⟩ t = none) : Misfit ⟨x, opened⟩ (t :: rest ++ after) (x.blame t) := by
  have hinside : t ≠ .rightParen ∨ opened = 0 := by
    cases opened with
    | zero => exact .inr rfl
    | succ opened => exact .inl (h.ne_rightParen (hus.reads 0))
  have hblame : blame ⟨x, opened⟩ t = x.blame t := by
    rw [blame, if_neg]
    rintro ⟨rfl, hopen⟩
    exact hinside.elim (fun hne => hne rfl) (Nat.ne_of_gt hopen)
  rw [← hblame]
  refine .token ?_
  cases t with
  | rightParen => rwa [hinside.resolve_left fun hne => hne rfl]
  | number value | plus | minus | multiply | divide | leftParen => cases x <;> first | rfl | cases ht

end Slice

/-- A build fails behind viable tokens, at tokens that do not go on with them. -/
theorem exists_misfit {levels opened : Nat} {after : List Token} (hslice : Slice opened ts after)
    (h : buildWithin levels ts = .error err) (hmatched : err ≠ .unmatchedParenthesis) (hdepth : err ≠ .nestedTooDeeply) :
    ∃ p rest c, ts ++ after = p ++ rest ∧ Viable p ∧ (Cursor.mk .first opened).reads p = some c ∧ Misfit c rest err := by
  induction levels generalizing ts opened after with
  | zero =>
    cases h
    contradiction
  | succ levels ih =>
    obtain ⟨us, x, rest, rfl, hus, hstuck⟩ := exists_stuck h
    cases hstuck with
    | ended hx => exact ⟨us, after, ⟨x, opened⟩, by simp, hus.viable, hus.reads opened, hslice.misfit_ended hx⟩
    | @token t rest unread =>
      exact ⟨us, t :: rest ++ after, ⟨x, opened⟩, by simp, hus.viable, hus.reads opened, hslice.misfit_token hus unread⟩
    | @group rest _ hx fails =>
      have hopen : (Cursor.mk .first opened).reads (us ++ [.leftParen]) = some ⟨.first, opened + 1⟩ := by
        rw [reads_concat (hus.reads opened)]
        exact if_neg hx
      obtain rfl | ⟨rfl, tail, rfl⟩ | ⟨inner, tail, rfl, hclose, hinner⟩ := readGroup_eq_error fails
      · contradiction
      · exact ⟨us ++ [.leftParen], .rightParen :: tail ++ after, ⟨.first, opened + 1⟩, by simp,
          hus.group hx viable_nil, hopen, .token rfl⟩
      · obtain ⟨p, rest, c, hall, hp, hread, hmisfit⟩ := ih (.group hclose (tail ++ after)) hinner
        refine ⟨us ++ .leftParen :: p, rest, c, ?_, hus.group hx hp, ?_, hmisfit⟩
        · simpa using hall
        · rw [← List.singleton_append, ← List.append_assoc, reads_append, hopen, Option.bind_some, hread]

/-! ## Where the prefix ends -/

/-- An operand may begin behind the tokens: there are none, or they end in an opening parenthesis or in an operator. -/
def OperandPosition (ts : List Token) : Prop :=
  ts = [] ∨ ts.getLast? = some .leftParen ∨ ∃ op, ts.getLast? = some (.ofOperator op)

/-- What an error says of the place between the tokens `before` and the tokens `rest`. -/
def PointsAt : ParseError → (before rest : List Token) → Prop
  | .unexpectedToken t, _, rest => rest.head? = some t
  | .invalidAfterUnaryMinus t, before, rest =>
    rest.head? = some t ∧ ∃ front, before = front ++ [.minus] ∧ OperandPosition front
  | .emptyParenthesis, before, rest => before.getLast? = some .leftParen ∧ rest.head? = some .rightParen
  | .unexpectedEnd, before, rest =>
    (∃ op, before.getLast? = some (.ofOperator op)) ∧ (rest = [] ∨ rest.head? = some .rightParen)
  | .unmatchedParenthesis, _, _ | .nestedTooDeeply, _, _ => True

/-- What was read last, by what is expected next. -/
inductive ReadLast : List Token → Cursor → Prop where
  | nothing : ReadLast [] ⟨.first, 0⟩
  | leftParen (ts : List Token) (opened : Nat) : ReadLast (ts ++ [.leftParen]) ⟨.first, opened + 1⟩
  | operator (ts : List Token) (op : Operator) (opened : Nat) : ReadLast (ts ++ [.ofOperator op]) ⟨.operand, opened⟩
  | unaryMinus {ts : List Token} (position : OperandPosition ts) (opened : Nat) :
      ReadLast (ts ++ [.minus]) ⟨.unsigned, opened⟩
  | operand (ts : List Token) (opened : Nat) : ReadLast ts ⟨.operator, opened⟩

namespace ReadLast

theorem operandPosition (h : ReadLast ts c) (hc : c.expected = .first ∨ c.expected = .operand) : OperandPosition ts := by
  cases h with
  | nothing => exact .inl rfl
  | leftParen ts opened => exact .inr (.inl List.getLast?_concat)
  | operator ts op opened => exact .inr (.inr ⟨op, List.getLast?_concat⟩)
  | unaryMinus | operand => rcases hc with hc | hc <;> cases hc

theorem ends_in_operator (h : ReadLast ts c) (hc : c.expected = .operand ∨ c.expected = .unsigned) :
    ∃ op, ts.getLast? = some (.ofOperator op) := by
  cases h with
  | operator ts op opened => exact ⟨op, List.getLast?_concat⟩
  | unaryMinus position opened => exact ⟨.minus, List.getLast?_concat⟩
  | nothing | leftParen | operand => rcases hc with hc | hc <;> cases hc

theorem step {t : Token} {c' : Cursor} (h : ReadLast ts c) (hread : c.read t = some c') : ReadLast (ts ++ [t]) c' := by
  obtain ⟨expected, opened⟩ := c
  cases t with
  | number | leftParen | rightParen =>
    simp only [Cursor.read] at hread
    split at hread <;> cases hread
    constructor
  | plus | multiply | divide =>
    simp only [Cursor.read] at hread
    split at hread <;> cases hread
    first
      | exact .operator ts .plus opened
      | exact .operator ts .multiply opened
      | exact .operator ts .divide opened
  | minus =>
    cases expected with
    | first =>
      cases hread
      exact .unaryMinus (h.operandPosition (.inl rfl)) opened
    | operand =>
      cases hread
      exact .unaryMinus (h.operandPosition (.inr rfl)) opened
    | unsigned => cases hread
    | operator =>
      cases hread
      exact .operator ts .minus opened

theorem steps {c' : Cursor} (h : ReadLast ts c) (hread : c.reads us = some c') : ReadLast (ts ++ us) c' := by
  induction us generalizing ts c with
  | nil =>
    cases hread
    rwa [List.append_nil]
  | cons t us ih =>
    obtain ⟨next, hnext, hrest⟩ := Option.bind_eq_some_iff.1 hread
    have hlast := ih (h.step hnext) hrest
    rwa [List.append_assoc, List.singleton_append] at hlast

end ReadLast

theorem pointsAt_of_misfit {rest : List Token} (hp : ReadLast p c) (h : Misfit c rest err) : PointsAt err p rest := by
  cases h with
  | ended lacking => exact ⟨hp.ends_in_operator lacking, .inl rfl⟩
  | @token t rest unread =>
    rw [blame]
    split
    -- a group ends here
    · next hend =>
      obtain ⟨rfl, hopen⟩ := hend
      cases hp with
      | nothing => cases hopen
      | leftParen ts opened => exact ⟨List.getLast?_concat, rfl⟩
      | operator ts op opened => exact ⟨⟨op, List.getLast?_concat⟩, .inr rfl⟩
      | unaryMinus position opened => exact ⟨⟨.minus, List.getLast?_concat⟩, .inr rfl⟩
      -- behind an operand the group may end
      | operand ts opened =>
        rw [Cursor.read, if_pos ⟨rfl, hopen⟩] at unread
        cases unread
    · cases hp with
      | unaryMinus position opened => exact ⟨rfl, _, rfl, position⟩
      | nothing | leftParen | operator | operand => rfl

/-! ## The main statement -/

/-- Errors point at the right token. Unless a group is never closed or groups are nested too deeply, the place that the
error tells of is where the longest viable prefix of the tokens ends. -/
theorem error_after_viable_prefix (h : build ts = .error err) (hmatched : err ≠ .unmatchedParenthesis)
    (hdepth : err ≠ .nestedTooDeeply) :
    ∃ before rest, ts = before ++ rest ∧ LongestViable before ts ∧ PointsAt err before rest := by
  rw [build] at h
  obtain ⟨before, rest, c, hall, hviable, hread, hmisfit⟩ := exists_misfit (.whole ts) h hmatched hdepth
  rw [List.append_nil] at hall
  subst hall
  have hlast : ReadLast ([] ++ before) c := ReadLast.nothing.steps hread
  exact ⟨before, rest, rfl, longestViable_of_misfit hviable hread hmisfit, pointsAt_of_misfit hlast hmisfit⟩

/-- In `2 * (1 + (-* 3)) )` the unary minus is the last token that fits, two groups down. -/
theorem error_two_groups_down :
    build [.number 2, .multiply, .leftParen, .number 1, .plus, .leftParen, .minus, .multiply, .number 3, .rightParen,
        .rightParen, .rightParen] = .error (.invalidAfterUnaryMinus .multiply) ∧
      ∃ before rest, [.number 2, .multiply, .leftParen, .number 1, .plus, .leftParen, .minus, .multiply, .number 3,
          .rightParen, .rightParen, .rightParen] = before ++ rest ∧
        LongestViable before [.number 2, .multiply, .leftParen, .number 1, .plus, .leftParen, .minus, .multiply, .number 3,
          .rightParen, .rightParen, .rightParen] ∧
        PointsAt (.invalidAfterUnaryMinus .multiply) before rest := by
  have hbuild : build [.number 2, .multiply, .leftParen, .number 1, .plus, .leftParen, .minus, .multiply, .number 3,
      .rightParen, .rightParen, .rightParen] = .error (.invalidAfterUnaryMinus .multiply) := rfl
  exact ⟨hbuild, error_after_viable_prefix hbuild (by simp) (by simp)⟩

end Calculator
