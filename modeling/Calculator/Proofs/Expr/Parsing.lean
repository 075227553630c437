import Calculator.Expr.Grammar
import Calculator.Proofs.Expr.Cursor
import Calculator.Proofs.Expr.Steps
/-!
# A build accepts the grammar and builds its trees

Soundness: the tokens that a build has taken always stand for its partial tree (`PartialTree.Reads`), with a
sum or a product to the left of each operator that is still open, so a finished tree is derived.

Completeness: a build led through the tokens of a derivation takes its tree as it would a single operand
(`takenWhole_of_derives`), so long as no tighter operator follows. Levels are counted along: if the tree has more
groups inside one another than there are levels, the build ends with that error and no other.

Main statement: `build_eq_grammar`.
-/

namespace Calculator

open BuildState

/-! ## Derived tokens -/

theorem Derives.ne_nil {r : Rank} {ts : List Token} {e : Expr} (h : Derives r ts e) : ts ≠ [] := by
  induction h with
  | ofOperand _ ih | ofProduct _ ih => exact ih
  | _ => simp

/-- Two operands with an operator between them are an expression, whatever the rank of the operator. -/
theorem Derives.binary {ts us : List Token} {l r : Expr} (hl : Derives .operand ts l) (op : Operator)
    (hr : Derives .operand us r) : Derives .sum (ts ++ .ofOperator op :: us) (.binary l op r) := by
  cases hop : op.isMultiplicative with
  | true => exact .ofProduct (.product op hop (.ofOperand hl) hr)
  | false => exact .sum op hop (.ofProduct (.ofOperand hl)) (.ofOperand hr)

/-- A search for the end of a group passes over derived tokens. -/
theorem closeFrom_derives {r : Rank} {ts : List Token} {e : Expr} (h : Derives r ts e) (index opened : Nat)
    (rest : List Token) : closeFrom index opened (ts ++ rest) = closeFrom (index + ts.length) opened rest := by
  have hreads : (Cursor.mk .first opened).reads ts = some ⟨.operator, opened⟩ := h.reads (.inl rfl)
  exact closeFrom_of_reads hreads index rest

/-- A group of derived tokens is read to its end. -/
theorem readGroup_derives {r : Rank} {ts : List Token} {e : Expr} (h : Derives r ts e) (build : GroupBuilder)
    (rest : List Token) : readGroup build (ts ++ .rightParen :: rest) = (build ts).map fun inner => (inner, rest) := by
  have hclose : matchingClose? (ts ++ .rightParen :: rest) = some ts.length := by
    rw [matchingClose?, closeFrom_derives h, closeFrom, Nat.zero_add]
  obtain ⟨n, hn⟩ : ∃ n, ts.length = n + 1 := Nat.exists_eq_succ_of_ne_zero (by simp [h.ne_nil])
  have htake : (ts ++ .rightParen :: rest).take (n + 1) = ts := by rw [← hn, List.take_left]
  have hdrop : (ts ++ .rightParen :: rest).drop (n + 1 + 1) = rest := by
    rw [← hn, List.drop_append, List.drop_eq_nil_of_le (by omega)]
    simp
  unfold readGroup
  rw [hclose, hn]
  simp only
  rw [htake, hdrop]
  cases build ts <;> rfl

/-! ## Soundness -/

/-- The tokens taken so far, the operator in front of the slot included, stand for the partial tree. -/
inductive PartialTree.Reads : PartialTree → List Token → Prop where
  | loose {ts : List Token} {l : Expr} {op : Operator} (loose : op.isMultiplicative = false)
      (left : Derives .sum ts l) : Reads ⟨l, op, none⟩ (ts ++ [.ofOperator op])
  | tight {ts : List Token} {l : Expr} {op : Operator} (tight : op.isMultiplicative = true)
      (left : Derives .product ts l) : Reads ⟨l, op, none⟩ (ts ++ [.ofOperator op])
  | opened {ts us : List Token} {l m : Expr} {op o : Operator} (loose : op.isMultiplicative = false)
      (tight : o.isMultiplicative = true) (left : Derives .sum ts l) (middle : Derives .product us m) :
      Reads ⟨l, op, some (m, o)⟩ (ts ++ .ofOperator op :: us ++ [.ofOperator o])

namespace PartialTree

theorem reads_start {ts : List Token} {e : Expr} {op : Operator} (h : Derives .operand ts e) :
    Reads (start e op) (ts ++ [.ofOperator op]) := by
  cases hop : op.isMultiplicative with
  | false => exact .loose hop (.ofProduct (.ofOperand h))
  | true => exact .tight hop (.ofOperand h)

theorem Reads.complete {p : PartialTree} {us vs : List Token} {x : Expr} (h : Reads p us)
    (hx : Derives .operand vs x) : Derives .sum (us ++ vs) (p.complete x) := by
  cases h with
  | loose hop left =>
    rw [List.append_assoc]
    exact .sum _ hop left (.ofOperand hx)
  | tight hop left =>
    rw [List.append_assoc]
    exact .ofProduct (.product _ hop left hx)
  | opened hop ho left middle =>
    rw [List.append_assoc, List.append_assoc, List.cons_append]
    exact .sum _ hop left (.product _ ho middle hx)

theorem Reads.merge {p : PartialTree} {us vs : List Token} {x : Expr} {op : Operator} (h : Reads p us)
    (hx : Derives .operand vs x) : Reads (p.merge x op) (us ++ vs ++ [.ofOperator op]) := by
  unfold PartialTree.merge
  cases hop : op.isMultiplicative with
  | false => exact .loose hop (h.complete hx)
  | true =>
    cases h with
    | loose hp left =>
      have h := Reads.opened hp hop left (.ofOperand hx)
      simpa [hp] using h
    | tight hp left =>
      have h := Reads.tight hop (.product _ hp left hx)
      simpa [hp, start] using h
    | opened hp ho left middle =>
      have h := Reads.opened hp hop left (.product _ ho middle hx)
      simpa using h

end PartialTree

/-- What a build of the tokens `ts` keeps: the tokens taken and the tokens to come are `ts`, and the tree is
the tree of the tokens taken. -/
inductive Sound (ts : List Token) : BuildState → Prop where
  | fresh : Sound ts (.inProgress none ts)
  | going {p : PartialTree} {us rest : List Token} (reads : p.Reads us) (all : ts = us ++ rest) :
      Sound ts (.inProgress (some p) rest)
  | nothing (none : ts = []) : Sound ts (.done .slot)
  | done {e : Expr} (derived : Derives .sum ts e) : Sound ts (.done e)
  | failed (err : ParseError) : Sound ts (.failed err)

theorem OperandTokens.derives {build : GroupBuilder} {us : List Token} {e : Expr}
    (hb : ∀ ts e, ts ≠ [] → build ts = .ok e → Derives .sum ts e) (h : OperandTokens build us e) :
    Derives .operand us e := by
  cases h with
  | number x => exact .number x
  | minusNumber x => exact .minusNumber x
  | group filled built => exact .group (hb _ _ filled built)
  | minusGroup filled built => exact .minusGroup (hb _ _ filled built)

theorem sound_advance {build : GroupBuilder} (hb : ∀ ts e, ts ≠ [] → build ts = .ok e → Derives .sum ts e)
    {ts : List Token} {s : BuildState} (h : Sound ts s) : Sound ts (s.advance build) := by
  cases h with
  | fresh =>
    have hadv := advance_cases build none ts
    generalize (BuildState.inProgress none ts).advance build = s at hadv
    cases hadv with
    | nothing => exact .nothing rfl
    | last hus => exact .done (.ofProduct (.ofOperand (hus.derives hb)))
    | @goOn us rest e op hus => exact .going (PartialTree.reads_start (hus.derives hb)) (by simp)
    | noOperand _ => exact .failed _
    | noOperator _ _ => exact .failed _
  | @going p us rest hreads hall =>
    have hadv := advance_cases build (some p) rest
    generalize (BuildState.inProgress (some p) rest).advance build = s at hadv
    subst hall
    cases hadv with
    | nothing hfresh => cases hfresh
    | last hvs => exact .done (hreads.complete (hvs.derives hb))
    | goOn hvs => exact .going (hreads.merge (hvs.derives hb)) (by simp)
    | noOperand _ => exact .failed _
    | noOperator _ _ => exact .failed _
  | nothing hnone => exact .nothing hnone
  | done hd => exact .done hd
  | failed err => exact .failed err

theorem sound_run {build : GroupBuilder} (hb : ∀ ts e, ts ≠ [] → build ts = .ok e → Derives .sum ts e)
    {ts : List Token} (n : Nat) {s : BuildState} (h : Sound ts s) : Sound ts (s.run build n) := by
  induction n generalizing s with
  | zero => exact h
  | succ n ih => rw [run_succ]; exact ih (sound_advance hb h)

/-- A tree built from some tokens is their tree. -/
theorem derives_of_buildWithin {levels : Nat} {ts : List Token} {e : Expr} (hne : ts ≠ [])
    (h : buildWithin levels ts = .ok e) : Derives .sum ts e := by
  induction levels generalizing ts e with
  | zero => cases h
  | succ levels ih =>
    have hs : Sound ts ((start ts).run (buildWithin levels) (ts.length + 1)) :=
      sound_run (fun _ _ hne h => ih hne h) _ .fresh
    rw [buildWithin] at h
    generalize (start ts).run (buildWithin levels) (ts.length + 1) = s at hs h
    cases hs with
    | fresh | going | failed => cases h
    | nothing hnone => exact absurd hnone hne
    | done hd => cases h; exact hd

/-! ## Completeness -/

/-- No tighter operator follows, so a sum ends here. -/
def SumEnds (rest : List Token) : Prop := ∀ op tail, rest = .ofOperator op :: tail → op.isMultiplicative = false

/-- The tree so far has a looser operator in front of its slot, or none. -/
def Loose (root : Option PartialTree) : Prop :=
  root = none ∨ ∃ l op, op.isMultiplicative = false ∧ root = some (.start l op)

/-- A state with an operand just read and still to be taken. -/
def taken (root : Option PartialTree) (e : Expr) (rest : List Token) : BuildState :=
  match takeOperand root e rest with
  | .ok s => s
  | .error err => .failed err

theorem taken_ofOperator (root : Option PartialTree) (e : Expr) (op : Operator) (rest : List Token) :
    taken root e (.ofOperator op :: rest) = .inProgress (some (mergeWith root e op)) rest := by
  rw [taken, takeOperand_ofOperator]

theorem complete_mergeWith {root : Option PartialTree} (hroot : Loose root) {op : Operator}
    (hop : op.isMultiplicative = true) (l r : Expr) :
    (mergeWith root l op).complete r = completeWith root (.binary l op r) := by
  obtain rfl | ⟨m, o, ho, rfl⟩ := hroot
  · rfl
  · simp [mergeWith, completeWith, PartialTree.merge, PartialTree.start, PartialTree.complete, hop, ho]

theorem merge_mergeWith {root : Option PartialTree} (hroot : Loose root) {op : Operator}
    (hop : op.isMultiplicative = true) (l r : Expr) (next : Operator) :
    (mergeWith root l op).merge r next = mergeWith root (.binary l op r) next := by
  obtain rfl | ⟨m, o, ho, rfl⟩ := hroot
  · cases hnext : next.isMultiplicative <;>
      simp [mergeWith, PartialTree.merge, PartialTree.start, PartialTree.complete, hop, hnext]
  · cases hnext : next.isMultiplicative <;>
      simp [mergeWith, PartialTree.merge, PartialTree.start, PartialTree.complete, hop, ho, hnext]

/-- Taking `l` and then `r` into a product is taking their product. -/
theorem taken_product {root : Option PartialTree} (hroot : Loose root) {op : Operator}
    (hop : op.isMultiplicative = true) (l r : Expr) (rest : List Token) :
    taken (some (mergeWith root l op)) r rest = taken root (.binary l op r) rest := by
  obtain rfl | ⟨next, tail, rfl⟩ | ⟨t, tail, ht, rfl⟩ := rest_cases rest
  · simp only [taken, takeOperand_nil]
    rw [← complete_mergeWith hroot hop, completeWith]
  · rw [taken_ofOperator, taken_ofOperator, ← merge_mergeWith hroot hop, mergeWith]
  · simp only [taken, takeOperand_of_none _ _ ht]

/-- Taking `l` and then `r` into a sum is taking their sum, which ends here. -/
theorem taken_sum (op : Operator) (l r : Expr) {rest : List Token} (hrest : SumEnds rest) :
    taken (some (.start l op)) r rest = taken none (.binary l op r) rest := by
  obtain rfl | ⟨next, tail, rfl⟩ | ⟨t, tail, ht, rfl⟩ := rest_cases rest
  · rfl
  · rw [taken_ofOperator, taken_ofOperator]
    have hnext := hrest next tail rfl
    simp [mergeWith, PartialTree.merge, PartialTree.start, PartialTree.complete, hnext]
  · simp only [taken, takeOperand_of_none _ _ ht]

/-- The build leads to `t` if the tree has no more groups inside one another than there are levels left for
them, and else to an error. -/
def LeadsWithin (levels : Nat) (s : BuildState) (e : Expr) (t : BuildState) : Prop :=
  Leads (buildWithin levels) s (if e.depth ≤ levels then t else .failed .nestedTooDeeply)

/-- An operand read in one step. -/
theorem leadsWithin_operand {levels : Nat} {ts rest : List Token} {e : Expr} (hne : ts ≠ [])
    (h : firstOperand (buildWithin levels) ts = if e.depth ≤ levels then .ok (e, rest) else .error .nestedTooDeeply)
    (root : Option PartialTree) : LeadsWithin levels (.inProgress root ts) e (taken root e rest) := by
  have hadv : Leads (buildWithin levels) (.inProgress root ts) _ := leads_advance (.inProgress root ts)
  rw [advance, readOperand_eq (.inr hne), h] at hadv
  unfold LeadsWithin
  by_cases hd : e.depth ≤ levels
  · rw [if_pos hd] at hadv ⊢
    exact hadv
  · rw [if_neg hd] at hadv ⊢
    exact hadv

/-- A left operand, its operator and a right operand read one after the other. -/
theorem LeadsWithin.binary {levels : Nat} {s t u : BuildState} {l r : Expr} (op : Operator)
    (hl : LeadsWithin levels s l t) (hr : LeadsWithin levels t r u) : LeadsWithin levels s (.binary l op r) u := by
  unfold LeadsWithin at *
  by_cases hdl : l.depth ≤ levels
  · rw [if_pos hdl] at hl
    by_cases hdr : r.depth ≤ levels
    · rw [if_pos hdr] at hr
      rw [Expr.depth, if_pos (Nat.max_le.2 ⟨hdl, hdr⟩)]
      exact hl.trans hr
    · rw [if_neg hdr] at hr
      rw [Expr.depth, if_neg (fun h => hdr (Nat.max_le.1 h).2)]
      exact hl.trans hr
  · rw [if_neg hdl] at hl
    rw [Expr.depth, if_neg (fun h => hdl (Nat.max_le.1 h).1)]
    exact hl

/-- A build of so many levels that comes to derived tokens takes their tree at once, whatever follows that does
not tie tighter. -/
def TakenWhole (levels : Nat) (ts : List Token) (e : Expr) : Rank → Prop
  | .operand => ∀ rest, firstOperand (buildWithin levels) (ts ++ rest) =
      if e.depth ≤ levels then .ok (e, rest) else .error .nestedTooDeeply
  | .product => ∀ root rest, Loose root →
      LeadsWithin levels (.inProgress root (ts ++ rest)) e (taken root e rest)
  | .sum => ∀ rest, SumEnds rest → LeadsWithin levels (.inProgress none (ts ++ rest)) e (taken none e rest)

theorem buildWithin_of_takenWhole {levels : Nat} {ts : List Token} {e : Expr} (h : TakenWhole levels ts e .sum) :
    buildWithin (levels + 1) ts = if e.depth ≤ levels then .ok e else .error .nestedTooDeeply := by
  have hleads := h [] (fun op tail h => by cases h)
  rw [List.append_nil, LeadsWithin] at hleads
  rw [buildWithin_eq_of_leads (by split <;> rfl) hleads]
  split <;> rfl

/-- What is inside a group is built one level further down. -/
theorem buildWithin_group {ts : List Token} {e : Expr} (h : ∀ levels, TakenWhole levels ts e .sum) (levels : Nat) :
    buildWithin levels ts = if e.depth + 1 ≤ levels then .ok e else .error .nestedTooDeeply := by
  cases levels with
  | zero => rfl
  | succ levels => simp only [buildWithin_of_takenWhole (h levels), Nat.add_le_add_iff_right]

/-- A group is read, up to its end and as an operand, if there is a level left for it. -/
theorem map_readGroup_of_derives {ts : List Token} {e : Expr} (inner : Derives .sum ts e)
    (h : ∀ levels, TakenWhole levels ts e .sum) (levels : Nat) (rest : List Token) (wrap : Expr → Expr) :
    ((readGroup (buildWithin levels) (ts ++ .rightParen :: rest)).map fun (inner, rest) => (wrap inner, rest)) =
      if e.depth + 1 ≤ levels then .ok (wrap e, rest) else .error .nestedTooDeeply := by
  rw [readGroup_derives inner, buildWithin_group h]
  by_cases hd : e.depth + 1 ≤ levels
  · rw [if_pos hd, if_pos hd]
    rfl
  · rw [if_neg hd, if_neg hd]
    rfl

theorem takenWhole_of_derives {r : Rank} {ts : List Token} {e : Expr} (h : Derives r ts e) (levels : Nat) :
    TakenWhole levels ts e r := by
  induction h generalizing levels with
  | number x => intro rest; rfl
  | minusNumber x => intro rest; rfl
  | @group ts e inner ih =>
    intro rest
    rw [List.cons_append, List.cons_append, List.append_assoc, List.singleton_append]
    exact map_readGroup_of_derives inner ih levels rest .group
  | @minusGroup ts e inner ih =>
    intro rest
    rw [List.cons_append, List.cons_append, List.cons_append, List.cons_append, List.append_assoc,
      List.singleton_append]
    exact map_readGroup_of_derives inner ih levels rest .negated
  | ofOperand operand ih =>
    intro root rest _
    exact leadsWithin_operand (by simp [operand.ne_nil]) (ih levels rest) root
  | @product ts us l r op hop left right ihl ihr =>
    intro root rest hroot
    have hl := ihl levels root (.ofOperator op :: (us ++ rest)) hroot
    have hr := leadsWithin_operand (by simp [right.ne_nil]) (ihr levels rest) (some (mergeWith root l op))
    rw [taken_ofOperator] at hl
    rw [taken_product hroot hop] at hr
    rw [List.append_assoc, List.cons_append]
    exact hl.binary op hr
  -- a product is a sum read from the start, where no looser operator stands in front
  | ofProduct product ih => exact fun rest _ => ih levels none rest (.inl rfl)
  | @sum ts us l r op hop left right ihl ihr =>
    intro rest hrest
    have hends : SumEnds (.ofOperator op :: (us ++ rest)) := by
      intro o tail h
      obtain ⟨ho, -⟩ := List.cons.inj h
      cases op <;> cases o <;> simp_all [Token.ofOperator]
    have hl := ihl levels (.ofOperator op :: (us ++ rest)) hends
    have hr := ihr levels (some (.start l op)) rest (.inr ⟨l, op, hop, rfl⟩)
    rw [taken_ofOperator, mergeWith] at hl
    rw [taken_sum op l r hrest] at hr
    rw [List.append_assoc, List.cons_append]
    exact hl.binary op hr

/-- The grammar is unambiguous: a build, which can end in one way only, ends with the tree of any derivation. -/
theorem derives_unique {ts : List Token} {e e' : Expr} (h : Derives .sum ts e) (h' : Derives .sum ts e') : e' = e := by
  -- levels enough for both trees
  have hb := buildWithin_of_takenWhole (takenWhole_of_derives h (max e.depth e'.depth))
  have hb' := buildWithin_of_takenWhole (takenWhole_of_derives h' (max e.depth e'.depth))
  rw [if_pos (Nat.le_max_left ..)] at hb
  rw [if_pos (Nat.le_max_right ..)] at hb'
  exact Except.ok.inj (hb'.symm.trans hb)

/-! ## The main statement -/

theorem build_of_derives {ts : List Token} {e : Expr} (h : Derives .sum ts e) :
    build ts = if e.depth ≤ maxDepth then .ok e else .error .nestedTooDeeply :=
  buildWithin_of_takenWhole (takenWhole_of_derives h maxDepth)

theorem derives_of_build {ts : List Token} {e : Expr} (hne : ts ≠ []) (h : build ts = .ok e) : Derives .sum ts e :=
  derives_of_buildWithin hne h

/-- A build accepts exactly the grammar, up to the limit on nesting, and builds exactly its trees: nothing at
all is a lone slot; tokens with a derivation have one tree only, which is what is built unless too many of its
groups stand inside one another; and any other tokens are an error. -/
theorem build_eq_grammar (ts : List Token) :
    (ts = [] → build ts = .ok .slot) ∧
      (∀ e, Derives .sum ts e → (∀ e', Derives .sum ts e' → e' = e) ∧
        build ts = if e.depth ≤ 256 then .ok e else .error .nestedTooDeeply) ∧
      (ts ≠ [] → (¬∃ e, Derives .sum ts e) → ∃ err, build ts = .error err) := by
  refine ⟨?_, ?_, ?_⟩
  · rintro rfl
    rfl
  · intro e h
    constructor
    · intro e' h'
      exact derives_unique h h'
    · exact build_of_derives h
  · intro hne hnone
    cases h : build ts with
    | error err => exact ⟨err, rfl⟩
    | ok e => exact absurd ⟨e, derives_of_build hne h⟩ hnone

/-- `-(1) * 2` is a product with a negated group on its left. -/
theorem build_negated_product :
    Derives .sum [.minus, .leftParen, .number 1, .rightParen, .multiply, .number 2]
        (.binary (.negated (.number 1)) .multiply (.number 2)) ∧
      build [.minus, .leftParen, .number 1, .rightParen, .multiply, .number 2] =
        .ok (.binary (.negated (.number 1)) .multiply (.number 2)) := by
  have h : Derives .sum [.minus, .leftParen, .number 1, .rightParen, .multiply, .number 2]
      (.binary (.negated (.number 1)) .multiply (.number 2)) :=
    .ofProduct (@Derives.product [.minus, .leftParen, .number 1, .rightParen] _ _ _ .multiply rfl
      (.ofOperand (.minusGroup (.ofProduct (.ofOperand (.number 1))))) (.number 2))
  exact ⟨h, ((build_eq_grammar _).2.1 _ h).2⟩

end Calculator
