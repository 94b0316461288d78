import QueryClauses.Condition.Rendering
import QueryClauses.Proofs.Except
import QueryClauses.Proofs.Filter.Grammar

/-!
# What is accepted can be written

A list of filters is checked by one case analysis over operations and operands and written by
another. They agree: what the first accepts is written as the comparison that it was read as
(`Operation.written_of_of?`), so that of an accepted list only the look-up of a column can fail
(`generate_outcome`). Both ways to the condition of a list are the same (`generate_eq_ofFilters`).
-/

namespace QueryClauses

variable {catalog : Catalog} {escape : Char} {supply : NameSupply} {behind : Bool}

/-! ## One comparison -/

/-- An operation and an operand that make a comparison are written as that comparison. -/
theorem Operation.written_of_of? {operation : Operation} {operand : Operand} {k : Comparison}
    (h : Comparison.of? operation operand = some k) (escape : Char) (column : String)
    (supply : NameSupply) :
    operation.written escape column supply operand =
      (.ok (k.written escape column supply).1, (k.written escape column supply).2) := by
  cases Comparison.of?_eq_some_iff.1 h with
  | isNull | isNotNull | contains | between | isIn => rfl
  | isInSingle => simp only [written, Comparison.written, Value.toBound, Value.toBoundAll_eq_map]
  | @compares _ sign v hsign hnull hlist =>
    -- null has branches of its own
    cases v with
    | null => cases hnull
    | _ => cases operation <;> cases hsign <;> rfl

/-! ## The column of an operand -/

theorem Catalog.column_ne_malformedFilter (catalog : Catalog) (name field : String)
    (fault : FilterFault) : catalog.column name field ≠ .error (.malformedFilter fault) := by
  unfold column find
  split
  · rename_i hfind
    split at hfind
    · cases hfind
    · cases hfind
      nofun
  · split
    · nofun
    · split <;> nofun

namespace Filter

/-- What looking up the field of a filter gives. -/
def LooksUp (catalog : Catalog) (f : Filter) (result : Except Failure String) : Prop :=
  ∃ entity field, f.entity = some entity ∧ f.field = some field ∧
    catalog.column entity field = result

/-- The first of the filters that cannot be looked up fails so. -/
inductive FailsFirst (catalog : Catalog) (failure : Failure) : List Filter → Prop
  | here {f : Filter} {fs : List Filter} (h : f.LooksUp catalog (.error failure)) :
      FailsFirst catalog failure (f :: fs)
  | later {f : Filter} {fs : List Filter} {column : String} (h : f.LooksUp catalog (.ok column))
      (hrest : FailsFirst catalog failure fs) : FailsFirst catalog failure (f :: fs)

theorem LooksUp.eq {f : Filter} {r r' : Except Failure String} (h : f.LooksUp catalog r)
    (h' : f.LooksUp catalog r') : r = r' := by
  obtain ⟨entity, field, hentity, hfield, rfl⟩ := h
  obtain ⟨entity', field', hentity', hfield', rfl⟩ := h'
  rw [hentity] at hentity'
  rw [hfield] at hfield'
  cases hentity'
  cases hfield'
  rfl

end Filter

/-! ## Both ways to a condition -/

section

variable {f : Filter} {entity field : String} (hentity : f.entity = some entity)
  (hfield : f.field = some field)
include hentity hfield

theorem Filter.written_of_error {failure : Failure}
    (hcolumn : catalog.column entity field = .error failure) :
    f.written catalog escape supply = (.error failure, supply) := by
  simp only [written, hentity, hfield, hcolumn]

theorem Filter.written_of_ok {k : Comparison} (hk : Comparison.of? f.operation f.operand = some k)
    {column : String} (hcolumn : catalog.column entity field = .ok column) :
    f.written catalog escape supply =
      (.ok (k.written escape column supply).1, (k.written escape column supply).2) := by
  simp only [written, hentity, hfield, hcolumn, Operation.written_of_of? hk]
  rfl

end

namespace Condition

open QueryClauses.Element QueryClauses.Filter

theorem ofEach_cons_of_isMark_eq_false {f : Filter} {fs : List Filter}
    (h : f.operation.isMark = false) : ofEach catalog escape behind supply (f :: fs) =
      match f.written catalog escape supply with
      | (.error failure, supply) => (.error failure, supply)
      | (.ok c, supply) =>
        ((ofEach catalog escape true supply fs).1.map (mark (implicitOr behind) ++ c ++ ·),
          (ofEach catalog escape true supply fs).2) := by
  rw [ofEach]
  cases hf : f.operation with
  | and | or | opening | closing =>
    rw [hf] at h
    cases h
  | _ => rfl

/-- Filters that are read are written as what they are read as. -/
theorem ofEach_eq_ofElements {pos depth : Nat} {preceding : Preceding} {fs : List Filter}
    {es : List Element} (h : readFrom pos depth preceding fs = .ok es) :
    ofEach catalog escape behind supply fs = ofElements catalog escape behind supply es := by
  induction fs generalizing pos depth preceding es behind supply with
  | nil =>
    obtain ⟨rfl, -⟩ := readFrom_nil h
    rfl
  | cons f fs ih =>
    obtain ⟨e, es, depth', preceding', rfl, hstep, hrest⟩ := readFrom_cons h
    cases hstep with
    | opening hf | closing hf _ _ | and hf _ | or hf _ =>
      simp only [ofEach, ofElements, hf, ih hrest]
    | @comparison entity field k hf hentity hfield hk =>
      rw [ofEach_cons_of_isMark_eq_false hf, ofElements]
      cases hcolumn : catalog.column entity field with
      | error failure => rw [written_of_error hentity hfield hcolumn]
      | ok column =>
        rw [written_of_ok hentity hfield hk hcolumn]
        simp only [ih hrest]

theorem generate_eq_ofFilters (catalog : Catalog) (escape : Char) (supply : NameSupply)
    (fs : List Filter) :
    generate catalog escape supply fs = ofFilters catalog escape supply fs := by
  unfold generate ofFilters check
  cases hread : read fs with
  | error fault => rfl
  | ok es => exact ofEach_eq_ofElements hread

/-! ## The outcome -/

/-- What comes of the operands of a list when their columns are looked up one after the other. -/
inductive Outcome (catalog : Catalog) : List Filter → Except Failure Condition → Prop
  | nil : Outcome catalog [] (.ok {})
  | mark {fs : List Filter} {r : Except Failure Condition} (text : String)
      (h : Outcome catalog fs r) : Outcome catalog fs (r.map (mark text ++ ·))
  | failed {f : Filter} {fs : List Filter} {failure : Failure}
      (hf : f.LooksUp catalog (.error failure)) : Outcome catalog (f :: fs) (.error failure)
  | written {f : Filter} {fs : List Filter} {r : Except Failure Condition} {column : String}
      {c : Condition} (hf : f.LooksUp catalog (.ok column)) (hc : c.columns = [column])
      (h : Outcome catalog fs r) : Outcome catalog (f :: fs) (r.map (c ++ ·))

variable {pos depth : Nat} {preceding : Preceding} {fs : List Filter} {es : List Element}
  {r : Except Failure Condition} {failure : Failure} {c : Condition}

theorem columns_written {column : String} (k : Comparison) :
    (k.written escape column supply).1.columns = [column] := by
  cases k <;> rfl

theorem outcome_ofEach (h : readFrom pos depth preceding fs = .ok es) :
    Outcome catalog (operands fs) (ofEach catalog escape behind supply fs).1 := by
  induction fs generalizing pos depth preceding es behind supply with
  | nil => exact .nil
  | cons f fs ih =>
    obtain ⟨e, es, depth', preceding', rfl, hstep, hrest⟩ := readFrom_cons h
    cases hstep with
    | opening hf | closing hf _ _ | and hf _ | or hf _ =>
      rw [operands_cons_of_mark (by rw [symbol, hf]; rfl)]
      simp only [ofEach, hf]
      exact .mark _ (ih hrest)
    | @comparison entity field k hf hentity hfield hk =>
      have hlookup {result} (hresult : catalog.column entity field = result) :
          f.LooksUp catalog result := ⟨entity, field, hentity, hfield, hresult⟩
      have hoperands : operands (f :: fs) = f :: operands fs := by simp [operands, hf]
      rw [hoperands, ofEach_cons_of_isMark_eq_false hf]
      cases hcolumn : catalog.column entity field with
      | error failure =>
        rw [written_of_error hentity hfield hcolumn]
        exact .failed (hlookup hcolumn)
      | ok column =>
        rw [written_of_ok hentity hfield hk hcolumn]
        exact .written (hlookup hcolumn) (columns_written k) (ih hrest)

theorem Outcome.eq_error_iff (h : Outcome catalog fs r) :
    r = .error failure ↔ FailsFirst catalog failure fs := by
  induction h with
  | nil => exact ⟨nofun, nofun⟩
  | mark text h ih => rw [map_eq_error_iff, ih]
  | failed hf =>
    constructor
    · rintro ⟨⟩
      exact .here hf
    · intro hfails
      cases hfails with
      | here hf' =>
        cases hf.eq hf'
        rfl
      | later hf' => cases hf.eq hf'
  | written hf hc h ih =>
    rw [map_eq_error_iff, ih]
    constructor
    · exact .later hf
    · intro hfails
      cases hfails with
      | here hf' => cases hf.eq hf'
      | later _ hfails => exact hfails

theorem Outcome.exists_eq_ok_iff (h : Outcome catalog fs r) :
    (∃ c, r = .ok c) ↔ ∀ f ∈ fs, ∃ column, f.LooksUp catalog (.ok column) := by
  induction h with
  | nil => simp
  | mark text h ih =>
    rw [← ih]
    constructor
    · rintro ⟨c, hc⟩
      obtain ⟨d, rfl, -⟩ := map_eq_ok_iff.1 hc
      exact ⟨d, rfl⟩
    · rintro ⟨d, rfl⟩
      exact ⟨_, rfl⟩
  | @failed f fs failure hf =>
    constructor
    · rintro ⟨c, ⟨⟩⟩
    · intro hall
      obtain ⟨column, hcolumn⟩ := hall f List.mem_cons_self
      cases hf.eq hcolumn
  | written hf hp h ih =>
    rw [List.forall_mem_cons, ← ih]
    constructor
    · rintro ⟨c, hc⟩
      obtain ⟨d, rfl, -⟩ := map_eq_ok_iff.1 hc
      exact ⟨⟨_, hf⟩, d, rfl⟩
    · rintro ⟨-, d, rfl⟩
      exact ⟨_, rfl⟩

/-- The columns of what is written are those of the operands. -/
theorem Outcome.mem_columns_iff (h : Outcome catalog fs (.ok c)) {column : String} :
    column ∈ c.columns ↔ ∃ f ∈ fs, f.LooksUp catalog (.ok column) := by
  generalize hr : Except.ok c = r at h
  induction h generalizing c with
  | nil =>
    cases hr
    exact ⟨nofun, nofun⟩
  | mark text h ih =>
    obtain ⟨d, rfl, rfl⟩ := map_eq_ok_iff.1 hr.symm
    exact @ih d rfl
  | failed hf => cases hr
  | @written f fs r column' p hf hp h ih =>
    obtain ⟨d, rfl, rfl⟩ := map_eq_ok_iff.1 hr.symm
    have hcolumns : (p ++ d).columns = column' :: d.columns := by
      show p.columns ++ d.columns = _
      rw [hp]
      rfl
    rw [hcolumns, List.mem_cons, ih rfl, List.exists_mem_cons_iff]
    refine or_congr_left ⟨?_, ?_⟩
    · rintro rfl
      exact hf
    · intro hf'
      exact Except.ok.inj (hf'.eq hf)

/-- A filter of an accepted list that is no mark has a field, and an operand that fits. -/
theorem exists_of?_of_mem_operands (h : readFrom pos depth preceding fs = .ok es) {f : Filter}
    (hf : f ∈ operands fs) : ∃ entity field k, f.entity = some entity ∧ f.field = some field ∧
      Comparison.of? f.operation f.operand = some k := by
  obtain ⟨hmem, hmark⟩ := List.mem_filter.1 hf
  clear hf
  induction fs generalizing pos depth preceding es with
  | nil => cases hmem
  | cons g fs ih =>
    obtain ⟨e, es, depth', preceding', rfl, hstep, hrest⟩ := readFrom_cons h
    rcases List.mem_cons.1 hmem with rfl | hmem
    · cases hstep with
      | comparison _ hentity hfield hk => exact ⟨_, _, _, hentity, hfield, hk⟩
      | opening hop | closing hop _ _ | and hop _ | or hop _ =>
        rw [hop] at hmark
        cases hmark
    · exact ih hrest hmem

theorem not_failsFirst_malformedFilter {fault : FilterFault} :
    ¬ FailsFirst catalog (.malformedFilter fault) fs := by
  intro h
  induction h with
  | here hf =>
    obtain ⟨entity, field, -, -, hcolumn⟩ := hf
    exact catalog.column_ne_malformedFilter entity field fault hcolumn
  | later _ _ ih => exact ih

/-- An operand of an accepted list is written, or its column cannot be looked up. -/
theorem written_ne_malformedFilter (h : readFrom pos depth preceding fs = .ok es) {f : Filter}
    (hf : f ∈ operands fs) (fault : FilterFault) :
    (f.written catalog escape supply).1 ≠ .error (.malformedFilter fault) := by
  obtain ⟨entity, field, k, hentity, hfield, hk⟩ := exists_of?_of_mem_operands h hf
  cases hcolumn : catalog.column entity field with
  | error failure =>
    rw [written_of_error hentity hfield hcolumn]
    rintro ⟨⟩
    exact catalog.column_ne_malformedFilter entity field fault hcolumn
  | ok column =>
    rw [written_of_ok hentity hfield hk hcolumn]
    nofun

/-- A list that is refused fails so, and no name is drawn. Of a list that is accepted every operand
can be written: it fails only as the first operand does of which the column cannot be looked up, and
what is written names the columns of the operands. -/
theorem generate_outcome (catalog : Catalog) (escape : Char) (supply : NameSupply)
    (fs : List Filter) :
    (∀ fault, (generate catalog escape supply fs).1 = .error (.malformedFilter fault) ↔
      check fs = .error fault) ∧
    (∀ fault, check fs = .error fault →
      generate catalog escape supply fs = (.error (.malformedFilter fault), supply)) ∧
    (check fs = .ok () →
      (∀ f ∈ operands fs, ∀ names fault,
        (f.written catalog escape names).1 ≠ .error (.malformedFilter fault)) ∧
      (∀ failure, (generate catalog escape supply fs).1 = .error failure ↔
        FailsFirst catalog failure (operands fs)) ∧
      ((∃ c, (generate catalog escape supply fs).1 = .ok c) ↔
        ∀ f ∈ operands fs, ∃ column, f.LooksUp catalog (.ok column)) ∧
      ∀ c, (generate catalog escape supply fs).1 = .ok c → ∀ column,
        column ∈ Std.TreeSet.ofList c.columns ↔
          ∃ f ∈ operands fs, f.LooksUp catalog (.ok column)) := by
  have hrefused : ∀ fault, check fs = .error fault →
      generate catalog escape supply fs = (.error (.malformedFilter fault), supply) := by
    intro fault h
    simp only [generate, h]
  have haccepted (h : check fs = .ok ()) :
      generate catalog escape supply fs = ofEach catalog escape false supply fs := by
    simp only [generate, h]
  refine ⟨fun fault => ⟨?_, ?_⟩, hrefused, fun h => ?_⟩
  · intro hfault
    cases h : check fs with
    | error fault' =>
      rw [hrefused fault' h] at hfault
      cases hfault
      rfl
    | ok u =>
      obtain ⟨es, hes⟩ := check_eq_ok_iff_exists_read.1 h
      rw [haccepted h, (outcome_ofEach hes).eq_error_iff] at hfault
      exact absurd hfault not_failsFirst_malformedFilter
  · intro h
    rw [hrefused fault h]
  · obtain ⟨es, hes⟩ := check_eq_ok_iff_exists_read.1 h
    have houtcome : Outcome catalog (operands fs) (generate catalog escape supply fs).1 := by
      rw [haccepted h]
      exact outcome_ofEach hes
    refine ⟨fun f hf names fault => written_ne_malformedFilter hes hf fault,
      fun failure => houtcome.eq_error_iff, houtcome.exists_eq_ok_iff, fun c hc column => ?_⟩
    rw [hc] at houtcome
    rw [Std.TreeSet.mem_ofList, List.contains_iff_mem]
    exact houtcome.mem_columns_iff

end Condition

end QueryClauses
