import QueryClauses.Search
import QueryClauses.Proofs.Filter.Reading
import Mathlib.Data.List.Forall2

/-!
# Conditions that differ in values only

Filters are alike if they differ in values only, and as to null not at all where a comparison with
null is written in its own way. Alike filters are read as comparisons of the same kind
(`Comparison.alike_of?`), and these are written as the same text with the same names
(`alike_ofFilters`). Searches are alike if they have the same fields and as many terms; they are
written as the same text with the same names too (`Search.alike_condition`).
-/

namespace QueryClauses

/-! ## Comparisons -/

namespace Comparison

inductive Alike : Comparison → Comparison → Prop
  | isNull : Alike isNull isNull
  | isNotNull : Alike isNotNull isNotNull
  | compares {sign : Sign} {v w : Value} : Alike (compares sign v) (compares sign w)
  | contains {s t : String} : Alike (contains s) (contains t)
  | between {low high low' high' : Value} : Alike (between low high) (between low' high')
  | isIn {vs ws : List Value} : Alike (isIn vs) (isIn ws)

end Comparison

/-- Operands of the same shape; where equality or inequality is asked for, both are null or neither
is. -/
def Operand.Alike (operation : Operation) : Operand → Operand → Prop
  | absent, absent => True
  | single v, single w =>
    operation = .equals ∨ operation = .different → v.isNull = w.isNull
  | range .., range .. => True
  | list _, list _ => True
  | _, _ => False

/-- Filters that differ in values only. -/
structure Filter.Alike (f g : Filter) : Prop where
  operation : f.operation = g.operation
  entity : f.entity = g.entity
  field : f.field = g.field
  operand : f.operand.Alike f.operation g.operand

namespace Comparison

theorem alike_matched? {sign : Sign} {ofNull : Comparison} (hnull : ofNull.Alike ofNull)
    {v w : Value} {k l : Comparison} (hv : matched? sign ofNull v = some k)
    (hw : matched? sign ofNull w = some l) (h : v.isNull = w.isNull) : k.Alike l := by
  unfold matched? at hv hw
  split at hv
  · cases hv
  split at hw
  · cases hw
  rw [h] at hv
  split at hv
  · rename_i hnull'
    rw [if_pos hnull'] at hw
    cases hv
    cases hw
    exact hnull
  · rename_i hnull'
    rw [if_neg hnull'] at hw
    cases hv
    cases hw
    exact .compares

theorem alike_ordered? {sign : Sign} {v w : Value} {k l : Comparison}
    (hv : ordered? sign v = some k) (hw : ordered? sign w = some l) : k.Alike l := by
  unfold ordered? at hv hw
  split at hv
  · cases hv
  split at hw
  · cases hw
  cases hv
  cases hw
  exact .compares

theorem alike_isIn? {vs ws : List Value} {k l : Comparison} (hv : isIn? vs = some k)
    (hw : isIn? ws = some l) : k.Alike l := by
  unfold isIn? at hv hw
  split at hv
  · cases hv
  split at hw
  · cases hw
  cases hv
  cases hw
  exact .isIn

theorem alike_of? {operation : Operation} {x y : Operand} (h : x.Alike operation y)
    {k l : Comparison} (hx : of? operation x = some k) (hy : of? operation y = some l) :
    k.Alike l := by
  cases x with
  | absent => cases operation <;> cases hx
  | single v =>
    cases y with
    | single w =>
      cases operation with
      | equals => exact alike_matched? .isNull hx hy (h (.inl rfl))
      | different => exact alike_matched? .isNotNull hx hy (h (.inr rfl))
      | greater | greaterOrEquals | less | lessOrEquals => exact alike_ordered? hx hy
      | like =>
        cases v <;> cases hx
        cases w <;> cases hy
        exact .contains
      | isIn =>
        cases v with
        | list vs =>
          cases w with
          | list ws => exact alike_isIn? hx hy
          | _ => cases hy
        | _ => cases hx
      | _ => cases hx
    | _ => exact h.elim
  | range low high =>
    cases y with
    | range low' high' =>
      cases operation with
      | between =>
        simp only [of?] at hx hy
        split at hx
        · cases hx
        split at hy
        · cases hy
        cases hx
        cases hy
        exact .between
      | _ => cases hx
    | _ => exact h.elim
  | list vs =>
    cases y with
    | list ws =>
      cases operation with
      | isIn => exact alike_isIn? hx hy
      | _ => cases hx
    | _ => exact h.elim

end Comparison

/-! ## Elements -/

inductive Element.Alike : Element → Element → Prop
  | opening : Alike opening opening
  | closing : Alike closing closing
  | and : Alike and and
  | or : Alike or or
  | comparison {entity field : String} {k l : Comparison} (h : k.Alike l) :
      Alike (comparison entity field k) (comparison entity field l)

/-- Alike filters are read as alike elements, with the same left behind them. -/
theorem Element.ReadStep.alike {depth : Nat} {preceding : Preceding} {f g : Filter}
    (h : f.Alike g) {e e' : Element} {depth₁ depth₂ : Nat} {preceding₁ preceding₂ : Preceding}
    (he : ReadStep depth preceding f e depth₁ preceding₁)
    (he' : ReadStep depth preceding g e' depth₂ preceding₂) :
    e.Alike e' ∧ depth₁ = depth₂ ∧ preceding₁ = preceding₂ := by
  obtain ⟨entity, field, operation, x⟩ := f
  obtain ⟨entity', field', operation', y⟩ := g
  obtain ⟨hoperation, hentity, hfield, hoperand⟩ := h
  simp only at hoperation hentity hfield
  subst hoperation hentity hfield
  cases he with
  | opening hf =>
    simp only at hf
    subst hf
    cases he' with
    | opening => exact ⟨.opening, rfl, rfl⟩
    | closing hg | and hg | or hg | comparison hg => cases hg
  | closing hf =>
    simp only at hf
    subst hf
    cases he' with
    | closing => exact ⟨.closing, rfl, rfl⟩
    | opening hg | and hg | or hg | comparison hg => cases hg
  | and hf =>
    simp only at hf
    subst hf
    cases he' with
    | and => exact ⟨.and, rfl, rfl⟩
    | opening hg | closing hg | or hg | comparison hg => cases hg
  | or hf =>
    simp only at hf
    subst hf
    cases he' with
    | or => exact ⟨.or, rfl, rfl⟩
    | opening hg | closing hg | and hg | comparison hg => cases hg
  | comparison hf hentity hfield hk =>
    simp only at hf hentity hfield
    subst hentity hfield
    cases he' with
    | comparison _ hentity' hfield' hl =>
      cases hentity'
      cases hfield'
      exact ⟨.comparison (Comparison.alike_of? hoperand hk hl), rfl, rfl⟩
    | opening hg | closing hg | and hg | or hg =>
      simp only at hg
      subst hg
      cases hf

theorem Element.alike_readFrom {fs gs : List Filter} (h : List.Forall₂ Filter.Alike fs gs)
    {pos depth : Nat} {preceding : Preceding} {es es' : List Element}
    (hf : readFrom pos depth preceding fs = .ok es)
    (hg : readFrom pos depth preceding gs = .ok es') : List.Forall₂ Element.Alike es es' := by
  induction h generalizing pos depth preceding es es' with
  | nil =>
    obtain ⟨rfl, -, -⟩ := readFrom_nil hf
    obtain ⟨rfl, -, -⟩ := readFrom_nil hg
    exact .nil
  | cons hfg _ ih =>
    obtain ⟨e, es, depth₁, preceding₁, rfl, hstep, hf⟩ := readFrom_cons hf
    obtain ⟨e', es', depth₂, preceding₂, rfl, hstep', hg⟩ := readFrom_cons hg
    obtain ⟨he, rfl, rfl⟩ := hstep.alike hfg hstep'
    exact .cons he (ih hf hg)

/-! ## Conditions -/

namespace Condition

structure Alike (c d : Condition) : Prop where
  text : c.text = d.text
  columns : c.columns = d.columns
  names : c.bindings.map (·.1) = d.bindings.map (·.1)

theorem Alike.rfl {c : Condition} : c.Alike c := ⟨Eq.refl _, Eq.refl _, Eq.refl _⟩

theorem Alike.append {c c' d d' : Condition} (hc : c.Alike c') (hd : d.Alike d') :
    (c ++ d).Alike (c' ++ d') where
  text := congrArg₂ (· ++ ·) hc.text hd.text
  columns := congrArg₂ (· ++ ·) hc.columns hd.columns
  names := by
    have hnames := congrArg₂ (· ++ ·) hc.names hd.names
    simp only [← List.map_append] at hnames
    exact hnames

theorem Alike.isEmpty {c d : Condition} (h : c.Alike d) : c.isEmpty = d.isEmpty := by
  rw [Condition.isEmpty, Condition.isEmpty, h.text]

inductive AlikeResult : Except Failure Condition → Except Failure Condition → Prop
  | ok {c d : Condition} (h : c.Alike d) : AlikeResult (.ok c) (.ok d)
  | error {failure : Failure} : AlikeResult (.error failure) (.error failure)

theorem AlikeResult.map_append {r r' : Except Failure Condition} (h : AlikeResult r r')
    {c c' : Condition} (hc : c.Alike c') : AlikeResult (r.map (c ++ ·)) (r'.map (c' ++ ·)) := by
  cases h with
  | ok h => exact .ok (hc.append h)
  | error => exact .error

end Condition

theorem Comparison.alike_written {k l : Comparison} (h : k.Alike l) (escape : Char)
    (column : String) (supply : NameSupply) :
    (k.written escape column supply).1.Alike (l.written escape column supply).1 ∧
      (k.written escape column supply).2 = (l.written escape column supply).2 := by
  cases h <;> exact ⟨⟨rfl, rfl, rfl⟩, rfl⟩

namespace Condition

theorem alike_ofElements (catalog : Catalog) (escape : Char) {es es' : List Element}
    (h : List.Forall₂ Element.Alike es es') (behind : Bool) (supply : NameSupply) :
    AlikeResult (ofElements catalog escape behind supply es).1
        (ofElements catalog escape behind supply es').1 ∧
      (ofElements catalog escape behind supply es).2 =
        (ofElements catalog escape behind supply es').2 := by
  induction h generalizing behind supply with
  | nil => exact ⟨.ok .rfl, rfl⟩
  | cons he _ ih =>
    cases he with
    | opening => exact ⟨(ih false supply).1.map_append .rfl, (ih false supply).2⟩
    | closing => exact ⟨(ih true supply).1.map_append .rfl, (ih true supply).2⟩
    | and => exact ⟨(ih false supply).1.map_append .rfl, (ih false supply).2⟩
    | or => exact ⟨(ih false supply).1.map_append .rfl, (ih false supply).2⟩
    | @comparison entity field k l hkl =>
      simp only [ofElements]
      cases catalog.column entity field with
      | error failure => exact ⟨.error, rfl⟩
      | ok column =>
        obtain ⟨hwritten, hsupply⟩ := Comparison.alike_written hkl escape column supply
        have ih := ih true (k.written escape column supply).2
        refine ⟨?_, ?_⟩
        · simp only [hsupply] at ih ⊢
          exact ih.1.map_append (Alike.rfl.append hwritten)
        · simp only [hsupply] at ih ⊢
          exact ih.2

/-- Alike lists of filters that are both accepted are written alike, and take the same names. -/
theorem alike_ofFilters {catalog : Catalog} {escape : Char} {supply supply' supply'' : NameSupply}
    {fs gs : List Filter} (h : List.Forall₂ Filter.Alike fs gs) {c d : Condition}
    (hf : ofFilters catalog escape supply fs = (.ok c, supply'))
    (hg : ofFilters catalog escape supply gs = (.ok d, supply'')) :
    c.Alike d ∧ supply' = supply'' := by
  unfold ofFilters at hf hg
  cases hread : Element.read fs with
  | error fault =>
    rw [hread] at hf
    cases hf
  | ok es =>
    cases hread' : Element.read gs with
    | error fault =>
      rw [hread'] at hg
      cases hg
    | ok es' =>
      simp only [hread, hread'] at hf hg
      have hes := Element.alike_readFrom h hread hread'
      obtain ⟨hresult, hsupply⟩ := alike_ofElements catalog escape hes false supply
      rw [hf, hg] at hresult hsupply
      cases hresult with
      | ok h => exact ⟨h, hsupply⟩

end Condition

/-! ## Searches -/

namespace Search

/-- Searches in the same fields for as many terms. -/
structure Alike (s t : Search) : Prop where
  fields : s.fieldList = t.fieldList
  terms : s.terms.length = t.terms.length

theorem isEmpty_eq (s : Search) : s.isEmpty = (s.terms.isEmpty || s.fieldList.isEmpty) := by
  have hfields : s.fields.toList.all (·.2.isEmpty) = s.fieldList.isEmpty := by
    rw [Bool.eq_iff_iff, List.all_eq_true, List.isEmpty_iff, fieldList, List.flatMap_eq_nil_iff]
    refine forall₂_congr fun p _ => ?_
    rw [List.map_eq_nil_iff, ← List.isEmpty_iff, Std.TreeSet.isEmpty_toList]
  rw [isEmpty, hfields]

theorem isEmpty_eq_of_length_eq {α : Type} {xs ys : List α} (h : xs.length = ys.length) :
    xs.isEmpty = ys.isEmpty := by
  rw [Bool.eq_iff_iff, List.isEmpty_iff, List.isEmpty_iff, ← List.length_eq_zero_iff, h,
    List.length_eq_zero_iff]

theorem Alike.isEmpty {s t : Search} (h : s.Alike t) : s.isEmpty = t.isEmpty := by
  rw [isEmpty_eq, isEmpty_eq, h.fields, isEmpty_eq_of_length_eq h.terms]

theorem Alike.columns {s t : Search} (h : s.Alike t) (catalog : Catalog) :
    s.columns catalog = t.columns catalog := by
  rw [Search.columns, Search.columns, h.fields]

theorem flatMap_const {α β : Type} (l : List β) {xs ys : List α} (h : xs.length = ys.length) :
    (xs.flatMap fun _ => l) = ys.flatMap fun _ => l := by
  rw [List.flatMap_def, List.flatMap_def, List.map_const', List.map_const', h]

theorem map_const_patterns (escape : Char) (words : Bool) (term column : String) :
    (patterns escape words term).map (fun _ => column) =
      List.replicate (if words then 2 else 1) column := by
  cases words <;> rfl

/-- The columns of alternatives depend on the number of terms only. -/
theorem map_fst_alternatives (escape : Char) (words : Bool) (columns : List String)
    {terms terms' : List String} (h : terms.length = terms'.length) :
    (alternatives escape words columns terms).map Prod.fst =
      (alternatives escape words columns terms').map Prod.fst := by
  simp only [alternatives, List.map_flatMap, List.map_map, Function.comp_def, map_const_patterns]
  exact congrArg (columns.flatMap ·) (funext fun column => flatMap_const _ h)

theorem alike_comparisons (escape : Char) {ps qs : List (String × Text)}
    (h : ps.map Prod.fst = qs.map Prod.fst) (supply : NameSupply) :
    List.Forall₂ Condition.Alike (comparisons escape supply ps).1 (comparisons escape supply qs).1 ∧
      (comparisons escape supply ps).2 = (comparisons escape supply qs).2 := by
  induction ps generalizing qs supply with
  | nil =>
    obtain rfl := List.map_eq_nil_iff.1 h.symm
    exact ⟨.nil, rfl⟩
  | cons p ps ih =>
    obtain ⟨q, qs, rfl, hpq, htail⟩ := List.map_eq_cons_iff.1 h.symm
    obtain ⟨column, pattern⟩ := p
    obtain ⟨column', pattern'⟩ := q
    obtain rfl : column' = column := hpq
    obtain ⟨hconditions, hsupply⟩ := ih htail.symm supply.next.2
    exact ⟨.cons ⟨rfl, rfl, rfl⟩ hconditions, hsupply⟩

theorem map_text_eq {cs ds : List Condition} (h : List.Forall₂ Condition.Alike cs ds) :
    cs.map (·.text) = ds.map (·.text) := by
  induction h with
  | nil => rfl
  | cons hcd _ ih => rw [List.map_cons, List.map_cons, hcd.text, ih]

theorem map_names_eq {cs ds : List Condition} (h : List.Forall₂ Condition.Alike cs ds) :
    (cs.flatMap (·.bindings)).map (·.1) = (ds.flatMap (·.bindings)).map (·.1) := by
  induction h with
  | nil => rfl
  | cons hcd _ ih =>
    rw [List.flatMap_cons, List.flatMap_cons, List.map_append, List.map_append, hcd.names, ih]

/-- Searches for as many terms are written alike, and take the same names. -/
theorem alike_condition (escape : Char) (words : Bool) (columns : List String)
    {terms terms' : List String} (h : terms.length = terms'.length) (supply : NameSupply) :
    (condition escape words columns terms supply).1.Alike
        (condition escape words columns terms' supply).1 ∧
      (condition escape words columns terms supply).2 =
        (condition escape words columns terms' supply).2 := by
  have halternatives := map_fst_alternatives escape words columns h
  obtain ⟨hconditions, hsupply⟩ := alike_comparisons escape halternatives supply
  refine ⟨⟨congrArg (" OR ".intercalate ·) (map_text_eq hconditions), ?_,
    map_names_eq hconditions⟩, hsupply⟩
  simp only [condition, isEmpty_eq_of_length_eq h]

end Search

end QueryClauses
