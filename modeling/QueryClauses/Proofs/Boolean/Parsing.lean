import Mathlib.Data.List.Basic

/-!
# Boolean expressions

Atoms, AND, OR and parentheses make an expression; AND binds tighter than OR, and both group to the
left (`Reads`). An expression is parsed from left to right by a machine with one level for each
group that is open. What it accepts is what the grammar reads, so that no expression is read in two
ways (`parse_eq_some_iff`).
-/

namespace QueryClauses.Boolean

inductive Symbol (α : Type) where
  | atom (a : α)
  | and
  | or
  | opening
  | closing
deriving DecidableEq, Repr

inductive Tree (α : Type) where
  | leaf (a : α)
  | and (l r : Tree α)
  | or (l r : Tree α)
deriving DecidableEq, Repr

variable {α β : Type}

namespace Symbol

def map (f : α → β) : Symbol α → Symbol β
  | atom a => atom (f a)
  | and => and
  | or => or
  | opening => opening
  | closing => closing

def atom? : Symbol α → Option α
  | atom a => some a
  | _ => none

def shape (s : Symbol α) : Symbol Unit := s.map fun _ => ()

/-- Whether a term can begin with the symbol. -/
def beginsTerm : Symbol α → Bool
  | atom _ | opening => true
  | _ => false

/-- Whether a term can end with the symbol. -/
def endsTerm : Symbol α → Bool
  | atom _ | closing => true
  | _ => false

/-- Symbols with an OR wherever a term would otherwise follow another; `behind` tells whether a term
ends in front of them. -/
def withOmitted (behind : Bool) : List (Symbol α) → List (Symbol α)
  | [] => []
  | s :: ss =>
    (if behind && s.beginsTerm then [or] else []) ++ s :: withOmitted s.endsTerm ss

end Symbol

theorem Symbol.map_shape_withOmitted (behind : Bool) (ss : List (Symbol α)) :
    (withOmitted behind ss).map shape = withOmitted behind (ss.map shape) := by
  induction ss generalizing behind with
  | nil => rfl
  | cons s ss ih =>
    rw [withOmitted, List.map_append, List.map_cons, ih, List.map_cons, withOmitted]
    cases behind <;> cases s <;> rfl

theorem Symbol.filterMap_withOmitted (behind : Bool) (ss : List (Symbol α)) :
    (withOmitted behind ss).filterMap atom? = ss.filterMap atom? := by
  induction ss generalizing behind with
  | nil => rfl
  | cons s ss ih =>
    rw [withOmitted, List.filterMap_append, List.filterMap_cons, List.filterMap_cons, ih]
    cases behind <;> cases s <;> rfl

namespace Tree

def map (f : α → β) : Tree α → Tree β
  | leaf a => leaf (f a)
  | and l r => and (l.map f) (r.map f)
  | or l r => or (l.map f) (r.map f)

def leaves : Tree α → List α
  | leaf a => [a]
  | and l r => l.leaves ++ r.leaves
  | or l r => l.leaves ++ r.leaves

def shape (t : Tree α) : Tree Unit := t.map fun _ => ()

end Tree

/-! ## The grammar -/

/-- How tightly the parts of an expression hold together. -/
inductive Rank where
  | term
  | conjunction
  | disjunction

inductive Reads : Rank → List (Symbol α) → Tree α → Prop
  | atom (a : α) : Reads .term [.atom a] (.leaf a)
  | group {ss : List (Symbol α)} {t : Tree α} (h : Reads .disjunction ss t) :
      Reads .term (.opening :: (ss ++ [.closing])) t
  | term {ss : List (Symbol α)} {t : Tree α} (h : Reads .term ss t) : Reads .conjunction ss t
  | and {ss ss' : List (Symbol α)} {t t' : Tree α} (h : Reads .conjunction ss t)
      (h' : Reads .term ss' t') : Reads .conjunction (ss ++ .and :: ss') (.and t t')
  | conjunction {ss : List (Symbol α)} {t : Tree α} (h : Reads .conjunction ss t) :
      Reads .disjunction ss t
  | or {ss ss' : List (Symbol α)} {t t' : Tree α} (h : Reads .disjunction ss t)
      (h' : Reads .conjunction ss' t') : Reads .disjunction (ss ++ .or :: ss') (.or t t')

theorem Reads.leaves_eq {rank : Rank} {ss : List (Symbol α)} {t : Tree α} (h : Reads rank ss t) :
    t.leaves = ss.filterMap Symbol.atom? := by
  induction h with
  | atom a => rfl
  | group h ih =>
    rw [ih, List.filterMap_cons_none rfl, List.filterMap_append]
    simp [Symbol.atom?]
  | term h ih => exact ih
  | and h h' ih ih' => rw [Tree.leaves, ih, ih', List.filterMap_append]; rfl
  | conjunction h ih => exact ih
  | or h h' ih ih' => rw [Tree.leaves, ih, ih', List.filterMap_append]; rfl

theorem map_shape_eq_append {ss : List (Symbol β)} {a b : List (Symbol α)}
    (h : ss.map Symbol.shape = (a ++ b).map Symbol.shape) :
    ∃ a' b', ss = a' ++ b' ∧ a'.map Symbol.shape = a.map Symbol.shape ∧
      b'.map Symbol.shape = b.map Symbol.shape := by
  rw [List.map_append] at h
  exact List.map_eq_append_iff.1 h

theorem map_shape_eq_cons {ss : List (Symbol β)} {s : Symbol α} {b : List (Symbol α)}
    (h : ss.map Symbol.shape = (s :: b).map Symbol.shape) :
    ∃ s' b', ss = s' :: b' ∧ s'.shape = s.shape ∧ b'.map Symbol.shape = b.map Symbol.shape := by
  rw [List.map_cons] at h
  exact List.map_eq_cons_iff.1 h

/-- How symbols are read does not depend on what their atoms are. -/
theorem Reads.of_shape {rank : Rank} {ss : List (Symbol α)} {t : Tree α} (h : Reads rank ss t)
    {ss' : List (Symbol β)} (hshape : ss'.map Symbol.shape = ss.map Symbol.shape) :
    ∃ t', Reads rank ss' t' ∧ t'.shape = t.shape := by
  induction h generalizing ss' with
  | atom a =>
    obtain ⟨s, rest, rfl, hs, hrest⟩ := map_shape_eq_cons hshape
    obtain rfl := List.map_eq_nil_iff.1 hrest
    cases s <;> cases hs
    exact ⟨_, .atom _, rfl⟩
  | group h ih =>
    obtain ⟨s, rest, rfl, hs, hrest⟩ := map_shape_eq_cons hshape
    obtain ⟨inner, last, rfl, hinner, hlast⟩ := map_shape_eq_append hrest
    obtain ⟨s', rest, rfl, hs', hnil⟩ := map_shape_eq_cons hlast
    obtain rfl := List.map_eq_nil_iff.1 hnil
    cases s <;> cases hs
    cases s' <;> cases hs'
    obtain ⟨t', ht', hsame⟩ := ih hinner
    exact ⟨t', .group ht', hsame⟩
  | term h ih =>
    obtain ⟨t', ht', hsame⟩ := ih hshape
    exact ⟨t', .term ht', hsame⟩
  | and h h' ih ih' =>
    obtain ⟨left, rest, rfl, hleft, hrest⟩ := map_shape_eq_append hshape
    obtain ⟨s, right, rfl, hs, hright⟩ := map_shape_eq_cons hrest
    cases s <;> cases hs
    obtain ⟨l, hl, hsame⟩ := ih hleft
    obtain ⟨r, hr, hsame'⟩ := ih' hright
    exact ⟨.and l r, .and hl hr, congrArg₂ Tree.and hsame hsame'⟩
  | conjunction h ih =>
    obtain ⟨t', ht', hsame⟩ := ih hshape
    exact ⟨t', .conjunction ht', hsame⟩
  | or h h' ih ih' =>
    obtain ⟨left, rest, rfl, hleft, hrest⟩ := map_shape_eq_append hshape
    obtain ⟨s, right, rfl, hs, hright⟩ := map_shape_eq_cons hrest
    cases s <;> cases hs
    obtain ⟨l, hl, hsame⟩ := ih hleft
    obtain ⟨r, hr, hsame'⟩ := ih' hright
    exact ⟨.or l r, .or hl hr, congrArg₂ Tree.or hsame hsame'⟩

/-! ## The machine -/

/-- What was read of a group: the terms before the last OR, and those since then before the last
AND. -/
structure Level (α : Type) where
  disjunction? : Option (Tree α) := none
  conjunction? : Option (Tree α) := none

namespace Level

def conjoin (level : Level α) (t : Tree α) : Tree α :=
  match level.conjunction? with
  | none => t
  | some c => .and c t

def close (level : Level α) (t : Tree α) : Tree α :=
  match level.disjunction? with
  | none => level.conjoin t
  | some d => .or d (level.conjoin t)

end Level

/-- The groups that are open, the innermost first, around the one that is being read; and the term
that was read last, unless one has to come next. -/
inductive State (α : Type) where
  | awaiting (outer : List (Level α)) (level : Level α)
  | holding (outer : List (Level α)) (level : Level α) (t : Tree α)

namespace State

def step : State α → Symbol α → Option (State α)
  | awaiting outer level, .atom a => some (holding outer level (.leaf a))
  | awaiting outer level, .opening => some (awaiting (level :: outer) {})
  | holding outer level t, .closing =>
    match outer with
    | [] => none
    | up :: outer => some (holding outer up (level.close t))
  | holding outer level t, .and =>
    some (awaiting outer { level with conjunction? := some (level.conjoin t) })
  | holding outer level t, .or => some (awaiting outer { disjunction? := some (level.close t) })
  | _, _ => none

def run (st : State α) (ss : List (Symbol α)) : Option (State α) := ss.foldlM step st

/-- The expression, if no group is open and no term is missing. -/
def finish : State α → Option (Tree α)
  | holding [] level t => some (level.close t)
  | _ => none

theorem run_append (st : State α) (ss ss' : List (Symbol α)) :
    st.run (ss ++ ss') = (st.run ss).bind (·.run ss') := List.foldlM_append

theorem run_cons (st : State α) (s : Symbol α) (ss : List (Symbol α)) :
    st.run (s :: ss) = (st.step s).bind (·.run ss) := List.foldlM_cons

end State

def parse (ss : List (Symbol α)) : Option (Tree α) :=
  ((State.awaiting [] {}).run ss).bind State.finish

/-! ## What the grammar reads is accepted -/

/-- What the machine does with symbols that are read at a rank. -/
def Accepts : Rank → List (Symbol α) → Tree α → Prop
  | .term, ss, t => ∀ outer level,
      (State.awaiting outer level).run ss = some (.holding outer level t)
  | .conjunction, ss, t => ∀ outer d?, ∃ c? u,
      (State.awaiting outer { disjunction? := d? }).run ss = some (.holding outer ⟨d?, c?⟩ u) ∧
        (Level.mk d? c?).conjoin u = t
  | .disjunction, ss, t => ∀ outer, ∃ level u,
      (State.awaiting outer {}).run ss = some (.holding outer level u) ∧ level.close u = t

theorem Reads.accepts {rank : Rank} {ss : List (Symbol α)} {t : Tree α} (h : Reads rank ss t) :
    Accepts rank ss t := by
  induction h with
  | atom a => exact fun _ _ => rfl
  | group h ih =>
    intro outer level
    obtain ⟨inner, u, hrun, rfl⟩ := ih (level :: outer)
    rw [State.run_cons, State.step, Option.bind_some, State.run_append, hrun]
    rfl
  | term h ih => exact fun outer d? => ⟨none, _, ih outer _, rfl⟩
  | @and ss ss' t t' h h' ih ih' =>
    intro outer d?
    obtain ⟨c?, u, hrun, rfl⟩ := ih outer d?
    refine ⟨some ((Level.mk d? c?).conjoin u), t', ?_, rfl⟩
    rw [State.run_append, hrun, Option.bind_some, State.run_cons, State.step, Option.bind_some]
    exact ih' outer _
  | conjunction h ih =>
    intro outer
    obtain ⟨c?, u, hrun, rfl⟩ := ih outer none
    exact ⟨_, u, hrun, rfl⟩
  | or h h' ih ih' =>
    intro outer
    obtain ⟨level, u, hrun, rfl⟩ := ih outer
    obtain ⟨c?, v, hrun', rfl⟩ := ih' outer (some (level.close u))
    refine ⟨⟨some (level.close u), c?⟩, v, ?_, rfl⟩
    rw [State.run_append, hrun, Option.bind_some, State.run_cons, State.step, Option.bind_some]
    exact hrun'

/-! ## What is accepted is read by the grammar -/

/-- How symbols were read that end with a joint, or that there are none. -/
inductive Awaits (rank : Rank) (joint : Symbol α) : Option (Tree α) → List (Symbol α) → Prop
  | none : Awaits rank joint none []
  | some {ss : List (Symbol α)} {t : Tree α} (h : Reads rank ss t) :
      Awaits rank joint (some t) (ss ++ [joint])

inductive Level.Holds (level : Level α) : List (Symbol α) → Prop
  | mk {ds cs : List (Symbol α)} (hd : Awaits .disjunction .or level.disjunction? ds)
      (hc : Awaits .conjunction .and level.conjunction? cs) : Holds level (ds ++ cs)

inductive HoldsAround : List (Level α) → List (Symbol α) → Prop
  | nil : HoldsAround [] []
  | cons {outer : List (Level α)} {level : Level α} {ss ss' : List (Symbol α)}
      (ho : HoldsAround outer ss) (hl : level.Holds ss') :
      HoldsAround (level :: outer) (ss ++ ss' ++ [.opening])

/-- How the symbols were read that led to a state. -/
inductive State.Holds : State α → List (Symbol α) → Prop
  | awaiting {outer : List (Level α)} {level : Level α} {ss ss' : List (Symbol α)}
      (ho : HoldsAround outer ss) (hl : level.Holds ss') : Holds (awaiting outer level) (ss ++ ss')
  | holding {outer : List (Level α)} {level : Level α} {t : Tree α}
      {ss ss' ss'' : List (Symbol α)} (ho : HoldsAround outer ss) (hl : level.Holds ss')
      (ht : Reads .term ss'' t) : Holds (holding outer level t) (ss ++ ss' ++ ss'')

theorem Level.holds_empty : ({} : Level α).Holds [] :=
  @Level.Holds.mk _ _ [] [] .none .none

theorem Awaits.reads_conjoin {level : Level α} {cs ss : List (Symbol α)} {t : Tree α}
    (hc : Awaits .conjunction .and level.conjunction? cs) (ht : Reads .term ss t) :
    Reads .conjunction (cs ++ ss) (level.conjoin t) := by
  obtain ⟨d?, c?⟩ := level
  cases hc with
  | none => exact .term ht
  | some h =>
    rw [List.append_assoc]
    exact .and h ht

theorem Level.Holds.reads_close {level : Level α} {ss ss' : List (Symbol α)} {t : Tree α}
    (hl : level.Holds ss) (ht : Reads .term ss' t) :
    Reads .disjunction (ss ++ ss') (level.close t) := by
  obtain ⟨hd, hc⟩ := hl
  have hconj := hc.reads_conjoin ht
  obtain ⟨d?, c?⟩ := level
  cases hd with
  | none => exact .conjunction hconj
  | some h =>
    rw [List.append_assoc, List.append_assoc]
    exact .or h hconj

theorem State.Holds.step {st st' : State α} {s : Symbol α} {ss : List (Symbol α)}
    (hst : st.Holds ss) (h : st.step s = some st') : st'.Holds (ss ++ [s]) := by
  cases hst with
  | awaiting ho hl =>
    cases s with
    | atom a =>
      cases h
      exact .holding ho hl (.atom a)
    | opening =>
      cases h
      simpa using State.Holds.awaiting (.cons ho hl) Level.holds_empty
    | and | or | closing => cases h
  | @holding outer level t _ _ _ ho hl ht =>
    cases s with
    | atom a | opening => cases h
    | closing =>
      cases ho with
      | nil => cases h
      | cons ho hup =>
        cases h
        simpa using State.Holds.holding ho hup (.group (hl.reads_close ht))
    | and =>
      cases h
      obtain ⟨hd, hc⟩ := hl
      have hnext : Level.Holds { level with conjunction? := some (level.conjoin t) } _ :=
        .mk hd (.some (hc.reads_conjoin ht))
      simpa using State.Holds.awaiting ho hnext
    | or =>
      cases h
      have hnext : Level.Holds { disjunction? := some (level.close t) } _ :=
        .mk (.some (hl.reads_close ht)) .none
      simpa using State.Holds.awaiting ho hnext

theorem State.Holds.run {st st' : State α} {ss ss' : List (Symbol α)} (hst : st.Holds ss)
    (h : st.run ss' = some st') : st'.Holds (ss ++ ss') := by
  induction ss' generalizing st ss with
  | nil =>
    cases h
    simpa using hst
  | cons s ss' ih =>
    rw [State.run_cons, Option.bind_eq_some_iff] at h
    obtain ⟨next, hnext, h⟩ := h
    simpa using ih (hst.step hnext) h

theorem reads_of_parse {ss : List (Symbol α)} {t : Tree α} (h : parse ss = some t) :
    Reads .disjunction ss t := by
  obtain ⟨st, hrun, hfinish⟩ := Option.bind_eq_some_iff.1 h
  have hst := (State.Holds.awaiting .nil Level.holds_empty).run hrun
  cases hst with
  | awaiting ho hl => cases hfinish
  | holding ho hl ht =>
    cases ho with
    | nil =>
      cases hfinish
      exact hl.reads_close ht
    | cons ho hup => cases hfinish

/-- The machine accepts what the grammar reads, with the tree that it reads. -/
theorem parse_eq_some_iff {ss : List (Symbol α)} {t : Tree α} :
    parse ss = some t ↔ Reads .disjunction ss t := by
  refine ⟨reads_of_parse, fun h => ?_⟩
  obtain ⟨level, u, hrun, rfl⟩ := h.accepts []
  rw [parse, hrun]
  rfl

end QueryClauses.Boolean
