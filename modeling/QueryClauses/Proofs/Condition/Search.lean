import QueryClauses.Search
import QueryClauses.Proofs.Condition.Comparison

/-!
# The elements of a search

A search is written as comparisons of columns with patterns, joined by OR. Its elements are those of
the comparisons (`writes_condition`), and its columns are columns of the catalog
(`isColumn_of_columns`).
-/

namespace QueryClauses

open Sql

namespace Search

variable {escape : Char}

theorem columns_eq_ok {catalog : Catalog} {search : Search} {columns : Std.TreeSet String}
    (h : search.columns catalog = .ok columns) :
    ∃ cs, (search.fieldList.mapM fun p => catalog.column p.1 p.2) = .ok cs ∧
      columns = .ofList cs := by
  unfold Search.columns at h
  cases hm : search.fieldList.mapM fun p => catalog.column p.1 p.2 with
  | error failure =>
    rw [hm] at h
    cases h
  | ok cs =>
    rw [hm] at h
    cases h
    exact ⟨cs, rfl, rfl⟩

/-- What is searched are the columns of the fields of the search. -/
theorem mem_columns_iff {catalog : Catalog} {search : Search} {columns : Std.TreeSet String}
    (h : search.columns catalog = .ok columns) {column : String} :
    column ∈ columns.toList ↔ ∃ p ∈ search.fieldList, catalog.column p.1 p.2 = .ok column := by
  obtain ⟨cs, hcs, rfl⟩ := columns_eq_ok h
  rw [← mem_mapM_iff hcs]
  simp

theorem isColumn_of_columns {catalog : Catalog} (hcatalog : catalog.check = .ok ())
    {search : Search} {columns : Std.TreeSet String} (h : search.columns catalog = .ok columns) :
    ∀ column ∈ columns.toList, IsColumn column.toList := by
  intro column hmem
  obtain ⟨p, -, hp⟩ := (mem_columns_iff h).1 hmem
  exact isColumn_of_column hcatalog hp

/-- OR with a blank on either side. -/
def orTokens : List Token := keywords ["OR"] ++ [blank ' ']

theorem mem_alternatives {words : Bool} {columns terms : List String} {p : String × Text}
    (h : p ∈ alternatives escape words columns terms) : p.1 ∈ columns := by
  simp only [alternatives, List.mem_flatMap, List.mem_map] at h
  obtain ⟨column, hcolumn, term, -, pattern, -, rfl⟩ := h
  exact hcolumn

theorem writes_comparisons (hescape : Pattern.isUsableEscape escape = true)
    {ps : List (String × Text)} (hps : ∀ p ∈ ps, IsColumn p.1.toList) (supply : NameSupply)
    (hstem : IsName supply.stem.toList) :
    ∃ parts, List.Forall₂ Condition.Writes (comparisons escape supply ps).1 parts ∧
      (∀ part ∈ parts, IsBalanced part) ∧ (comparisons escape supply ps).2.stem = supply.stem := by
  induction ps generalizing supply with
  | nil => exact ⟨[], .nil, by simp, rfl⟩
  | cons p ps ih =>
    obtain ⟨column, pattern⟩ := p
    have hcolumn : IsColumn column.toList := hps _ List.mem_cons_self
    obtain ⟨parts, hparts, hbalanced, hstem'⟩ :=
      ih (fun p hp => hps p (List.mem_cons_of_mem _ hp)) supply.next.2 hstem
    have hname := isName_name hstem (supply.count + 1)
    refine ⟨_ :: parts, .cons (Condition.writes_like hcolumn hescape hname pattern) hparts, ?_,
      hstem'⟩
    intro part hpart
    rcases List.mem_cons.1 hpart with rfl | hpart
    · exact Comparison.open?_tokens escape hcolumn supply (.contains "") 0
    · exact hbalanced part hpart

/-- The condition of a search: its elements, of which the parentheses are in pairs. -/
theorem writes_condition (hescape : Pattern.isUsableEscape escape = true) {words : Bool}
    {columns terms : List String} (hcolumns : ∀ column ∈ columns, IsColumn column.toList)
    {supply : NameSupply} (hstem : IsName supply.stem.toList) :
    ∃ ts, (condition escape words columns terms supply).1.Writes ts ∧ IsBalanced ts ∧
      (condition escape words columns terms supply).2.stem = supply.stem := by
  have halternatives : ∀ p ∈ alternatives escape words columns terms, IsColumn p.1.toList :=
    fun p hp => hcolumns p.1 (mem_alternatives hp)
  obtain ⟨parts, hparts, hbalanced, hstem'⟩ :=
    writes_comparisons hescape halternatives supply hstem
  obtain ⟨hnames, htexts, htidy⟩ := Condition.names_of_forall₂ hparts
  have hor : Tidy orTokens [] := tidy_of_eval (by decide +kernel)
  refine ⟨orTokens.intercalate parts, ⟨?_, ?_⟩, IsBalanced.intercalate (by decide) hbalanced, hstem'⟩
  · rw [textOf_intercalate, htexts]
    exact String.toList_intercalate
  · have := hor.intercalate (beginsApart_cons rfl _) (LeavesOff.append (.inl rfl) _) htidy
    rw [hnames] at this
    exact this

end Search

end QueryClauses
