import QueryClauses.Proofs.Boolean.Parsing
import QueryClauses.Proofs.Filter.Reading

/-!
# Lists of filters as boolean expressions

The marks of a list of filters are the symbols of a boolean expression, its other filters the atoms;
where a mark between two terms is omitted, OR is meant (`Filter.expression`). A list that is
accepted is an expression (`parse_expression`).
-/

namespace QueryClauses

namespace Filter

def symbol (f : Filter) : Boolean.Symbol Filter :=
  match f.operation with
  | .opening => .opening
  | .closing => .closing
  | .and => .and
  | .or => .or
  | _ => .atom f

/-- The boolean expression that a list of filters stands for. -/
def expression (fs : List Filter) : List (Boolean.Symbol Filter) :=
  Boolean.Symbol.withOmitted false (fs.map symbol)

def operands (fs : List Filter) : List Filter := fs.filter fun f => !f.operation.isMark

theorem symbol_of_isMark_eq_false {f : Filter} (h : f.operation.isMark = false) :
    f.symbol = .atom f := by
  unfold symbol
  cases hf : f.operation <;> first | rfl | (rw [hf] at h; cases h)

theorem atom?_symbol (f : Filter) :
    f.symbol.atom? = if f.operation.isMark then none else some f := by
  unfold symbol
  cases f.operation <;> rfl

theorem operands_cons_of_mark {f : Filter} {fs : List Filter} (h : f.symbol.atom? = none) :
    operands (f :: fs) = operands fs := by
  rw [atom?_symbol] at h
  rw [operands, List.filter_cons]
  cases hmark : f.operation.isMark with
  | true => rfl
  | false =>
    rw [hmark] at h
    cases h

theorem filterMap_symbol (fs : List Filter) :
    (fs.map symbol).filterMap Boolean.Symbol.atom? = operands fs := by
  induction fs with
  | nil => rfl
  | cons f fs ih =>
    rw [List.map_cons, List.filterMap_cons, atom?_symbol, ih, operands, operands, List.filter_cons]
    cases f.operation.isMark <;> rfl

end Filter

theorem Filter.filterMap_expression (fs : List Filter) :
    (expression fs).filterMap Boolean.Symbol.atom? = operands fs := by
  rw [expression, Boolean.Symbol.filterMap_withOmitted, filterMap_symbol]

namespace Element

/-- The states of the machine in which it is when filters were read up to a depth and to what
precedes the next one. -/
inductive Follows : Boolean.State Filter → Nat → Preceding → Prop
  | awaiting {outer : List (Boolean.Level Filter)} {level : Boolean.Level Filter}
      {preceding : Preceding} (h : preceding ≠ .operand) :
      Follows (.awaiting outer level) outer.length preceding
  | holding {outer : List (Boolean.Level Filter)} {level : Boolean.Level Filter}
      {t : Boolean.Tree Filter} : Follows (.holding outer level t) outer.length .operand

/-- The machine takes what a filter stands for, behind OR if that was omitted. -/
theorem ReadStep.run_symbol {depth depth' : Nat} {preceding preceding' : Preceding} {f : Filter}
    {e : Element} (h : ReadStep depth preceding f e depth' preceding') {st : Boolean.State Filter}
    (hst : Follows st depth preceding) (ss : List (Boolean.Symbol Filter)) :
    ∃ st', st.run (Boolean.Symbol.withOmitted (preceding == .operand) (f.symbol :: ss)) =
        st'.run (Boolean.Symbol.withOmitted (preceding' == .operand) ss) ∧
      Follows st' depth' preceding' := by
  cases h with
  | opening hf =>
    have hsymbol : f.symbol = .opening := by rw [Filter.symbol, hf]
    rw [hsymbol]
    cases hst with
    | @awaiting outer level _ hp =>
      have hbehind : (preceding == .operand) = false := by simpa using hp
      rw [hbehind]
      exact ⟨.awaiting (level :: outer) {}, rfl, .awaiting (by decide)⟩
    | holding => exact ⟨_, rfl, .awaiting (by decide)⟩
  | closing hf hdepth hp =>
    have hsymbol : f.symbol = .closing := by rw [Filter.symbol, hf]
    rw [hsymbol]
    subst hp
    cases hst with
    | awaiting hp => exact absurd rfl hp
    | @holding outer level t =>
      cases outer with
      | nil => exact absurd rfl hdepth
      | cons up outer => exact ⟨.holding outer up (level.close t), rfl, .holding⟩
  | and hf hp =>
    have hsymbol : f.symbol = .and := by rw [Filter.symbol, hf]
    rw [hsymbol]
    subst hp
    cases hst with
    | awaiting hp => exact absurd rfl hp
    | holding => exact ⟨_, rfl, .awaiting (by decide)⟩
  | or hf hp =>
    have hsymbol : f.symbol = .or := by rw [Filter.symbol, hf]
    rw [hsymbol]
    subst hp
    cases hst with
    | awaiting hp => exact absurd rfl hp
    | holding => exact ⟨_, rfl, .awaiting (by decide)⟩
  | comparison hf _ _ _ =>
    rw [Filter.symbol_of_isMark_eq_false hf]
    cases hst with
    | @awaiting outer level _ hp =>
      have hbehind : (preceding == .operand) = false := by simpa using hp
      rw [hbehind]
      exact ⟨.holding outer level (.leaf f), rfl, .holding⟩
    | @holding outer level t =>
      exact ⟨.holding outer { disjunction? := some (level.close t) } (.leaf f), rfl, .holding⟩

theorem run_of_readFrom {pos depth : Nat} {preceding : Preceding} {fs : List Filter}
    {es : List Element} (h : readFrom pos depth preceding fs = .ok es) {st : Boolean.State Filter}
    (hst : Follows st depth preceding) (hne : fs = [] → preceding = .operand) :
    ∃ t, (st.run (Boolean.Symbol.withOmitted (preceding == .operand) (fs.map Filter.symbol))).bind
      Boolean.State.finish = some t := by
  induction fs generalizing pos depth preceding es st with
  | nil =>
    obtain ⟨rfl, hdepth, -⟩ := readFrom_nil h
    rw [hne rfl] at hst
    cases hst with
    | awaiting h => exact absurd rfl h
    | @holding outer level t =>
      obtain rfl := List.length_eq_zero_iff.1 hdepth
      exact ⟨_, rfl⟩
  | cons f fs ih =>
    obtain ⟨e, es', depth', preceding', rfl, hstep, h⟩ := readFrom_cons h
    obtain ⟨st', hrun, hst'⟩ := hstep.run_symbol hst (fs.map Filter.symbol)
    rw [List.map_cons, hrun]
    refine ih h hst' ?_
    rintro rfl
    obtain ⟨-, hdepth, hjoint⟩ := readFrom_nil h
    cases hstep with
    | opening => cases hdepth
    | and | or => exact absurd rfl hjoint
    | closing | comparison => rfl

/-- An accepted list with a filter in it is an expression. -/
theorem parse_expression {fs : List Filter} {es : List Element} (h : read fs = .ok es)
    (hne : fs ≠ []) : ∃ t, Boolean.parse (Filter.expression fs) = some t :=
  run_of_readFrom h (.awaiting (by decide)) fun hnil => absurd hnil hne

end Element

end QueryClauses
