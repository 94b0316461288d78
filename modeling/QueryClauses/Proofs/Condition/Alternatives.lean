import Mathlib.Data.Finset.Sort
import Mathlib.Data.String.Basic
import Mathlib.Tactic.Ring
import QueryClauses.Proofs.Condition.Alike
import QueryClauses.Proofs.Condition.Fragments
import QueryClauses.Proofs.Condition.Generation

/-!
# The alternatives of a search

A search compares each column that no filter names with each term, once or twice. Where a comparison
stands among the others, its name and its pattern follow from the numbers of its column, of its term
and of its kind (`alternatives_condition`). What is searched is said apart from how it is found: the
columns of the searched fields that are not those of filters, in order (`searchedColumns`).
-/

namespace QueryClauses

/-! ## Lists of parts of one length -/

section Parts

variable {α β : Type} {f : α → List β} {n : Nat} (h : ∀ x, (f x).length = n)
include h

theorem length_flatMap_of_length_eq (xs : List α) : (xs.flatMap f).length = xs.length * n := by
  simp [List.length_flatMap, h]

theorem getElem?_flatMap_of_length_eq (xs : List α) {i j : Nat} (hj : j < n) :
    (xs.flatMap f)[i * n + j]? = xs[i]?.bind fun x => (f x)[j]? := by
  induction xs generalizing i with
  | nil => simp
  | cons x xs ih =>
    rw [List.flatMap_cons]
    cases i with
    | zero =>
      have hfirst : j < (f x).length := by rwa [h]
      rw [Nat.zero_mul, Nat.zero_add, List.getElem?_append_left hfirst]
      rfl
    | succ i =>
      have hlater : (f x).length ≤ (i + 1) * n + j := by
        rw [h, Nat.add_mul]
        omega
      have hindex : (i + 1) * n + j - (f x).length = i * n + j := by
        rw [h, Nat.add_mul]
        omega
      rw [List.getElem?_append_right hlater, hindex, ih]
      rfl

end Parts

/-! ## What is searched -/

/-- The columns that a catalog offers for fields. -/
def Catalog.columnsOf (catalog : Catalog) (fields : List (String × String)) : Finset String :=
  (fields.filterMap fun p => (catalog.column p.1 p.2).toOption).toFinset

theorem Catalog.mem_columnsOf {catalog : Catalog} {fields : List (String × String)}
    {column : String} : column ∈ catalog.columnsOf fields ↔
      ∃ p ∈ fields, catalog.column p.1 p.2 = .ok column := by
  have hoption (result : Except Failure String) :
      result.toOption = some column ↔ result = .ok column := by
    cases result <;> simp [Except.toOption]
  simp [columnsOf, hoption]

/-- The columns of the searched fields that no filter compares, in order. -/
def searchedColumns (catalog : Catalog) (filters : List Filter) (search : Option Search) :
    List String :=
  (catalog.columnsOf (search.elim [] Search.fieldList) \
    catalog.columnsOf (Filter.fieldList (Filter.operands filters))).sort

/-- A condition of filters names the columns of their operands. -/
theorem Condition.mem_columns_ofFilters {catalog : Catalog} {escape : Char}
    {supply supply' : NameSupply} {fs : List Filter} {c : Condition}
    (h : ofFilters catalog escape supply fs = (.ok c, supply')) {column : String} :
    column ∈ c.columns ↔ column ∈ catalog.columnsOf (Filter.fieldList (Filter.operands fs)) := by
  unfold ofFilters at h
  cases hread : Element.read fs with
  | error fault =>
    rw [hread] at h
    cases h
  | ok es =>
    rw [hread] at h
    have hwritten : ofElements catalog escape false supply es = (.ok c, supply') := h
    have houtcome := @outcome_ofEach catalog escape supply false _ _ _ _ _ hread
    rw [ofEach_eq_ofElements hread, hwritten] at houtcome
    rw [houtcome.mem_columns_iff, Catalog.mem_columnsOf]
    constructor
    · rintro ⟨f, hf, entity, field, hentity, hfield, hcolumn⟩
      exact ⟨(entity, field), List.mem_filterMap.2 ⟨f, hf, by simp [hentity, hfield]⟩, hcolumn⟩
    · rintro ⟨⟨entity, field⟩, hmem, hcolumn⟩
      obtain ⟨f, hf, hnamed⟩ := List.mem_filterMap.1 hmem
      obtain ⟨entity', hentity, hnamed⟩ := Option.bind_eq_some_iff.1 hnamed
      obtain ⟨field', hfield, hnamed⟩ := Option.map_eq_some_iff.1 hnamed
      cases hnamed
      exact ⟨f, hf, entity, field, hentity, hfield, hcolumn⟩

namespace Search

variable {escape : Char} {words : Bool} {columns terms : List String} {supply : NameSupply}

/-- The columns that are left of a search are the searched columns. -/
theorem filter_columns_eq {catalog : Catalog} {search : Search} {found : Std.TreeSet String}
    (h : search.columns catalog = .ok found) {filtered : List String} {filters : List Filter}
    (hfiltered : ∀ column, column ∈ filtered ↔
      column ∈ catalog.columnsOf (Filter.fieldList (Filter.operands filters))) :
    found.toList.filter (!filtered.contains ·) =
      searchedColumns catalog filters (some search) := by
  have hordered : found.toList.Pairwise (· < ·) :=
    found.ordered_toList.imp fun hlt => compare_lt_iff_lt.1 hlt
  have hkept := hordered.filter (!filtered.contains ·)
  have hset : catalog.columnsOf search.fieldList \
      catalog.columnsOf (Filter.fieldList (Filter.operands filters)) =
        (found.toList.filter (!filtered.contains ·)).toFinset := by
    ext column
    rw [Finset.mem_sdiff, ← hfiltered, Catalog.mem_columnsOf, ← mem_columns_iff h,
      List.mem_toFinset, List.mem_filter]
    simp
  rw [searchedColumns, Option.elim_some, hset]
  exact ((List.toFinset_sort _ hkept.nodup).2 (hkept.imp fun hlt => le_of_lt hlt)).symm

/-! ## The comparisons -/

/-- In how many ways a column is compared with a term. -/
def kinds (words : Bool) : Nat := if words then 2 else 1

/-- The pattern for a term: of texts that start with it, and as the second kind of texts with a
further word that does. -/
def pattern (escape : Char) (kind : Nat) (term : String) : Text :=
  if kind = 0 then Pattern.startsWith escape term.toList
  else Pattern.wordStartsWith escape term.toList

theorem length_patterns (escape : Char) (words : Bool) (term : String) :
    (patterns escape words term).length = kinds words := by
  cases words <;> rfl

theorem getElem?_patterns {kind : Nat} (hkind : kind < kinds words) (term : String) :
    (patterns escape words term)[kind]? = some (pattern escape kind term) := by
  cases words with
  | false =>
    obtain rfl : kind = 0 := Nat.lt_one_iff.1 hkind
    rfl
  | true =>
    obtain rfl | rfl : kind = 0 ∨ kind = 1 := by
      simp only [kinds, if_true] at hkind
      omega
    · rfl
    · rfl

theorem length_alternatives (escape : Char) (words : Bool) (columns terms : List String) :
    (alternatives escape words columns terms).length =
      columns.length * terms.length * kinds words := by
  have hterm (column term : String) :
      ((patterns escape words term).map (column, ·)).length = kinds words := by
    rw [List.length_map, length_patterns]
  rw [alternatives, length_flatMap_of_length_eq fun column =>
    length_flatMap_of_length_eq (hterm column) terms, Nat.mul_assoc]

theorem getElem?_alternatives {i j kind : Nat} (hi : i < columns.length) (hj : j < terms.length)
    (hkind : kind < kinds words) :
    (alternatives escape words columns terms)[(i * terms.length + j) * kinds words + kind]? =
      some (columns[i], pattern escape kind terms[j]) := by
  have hterm (column term : String) :
      ((patterns escape words term).map (column, ·)).length = kinds words := by
    rw [List.length_map, length_patterns]
  have hcolumn (column : String) := length_flatMap_of_length_eq (hterm column) terms
  have hindex : (i * terms.length + j) * kinds words + kind =
      i * (terms.length * kinds words) + (j * kinds words + kind) := by
    ring
  have hbound : j * kinds words + kind < terms.length * kinds words :=
    calc j * kinds words + kind < j * kinds words + kinds words := by omega
      _ = (j + 1) * kinds words := by ring
      _ ≤ terms.length * kinds words := Nat.mul_le_mul_right _ hj
  rw [alternatives, hindex, getElem?_flatMap_of_length_eq hcolumn columns hbound,
    List.getElem?_eq_getElem hi, Option.bind_some,
    getElem?_flatMap_of_length_eq (hterm columns[i]) terms hkind, List.getElem?_eq_getElem hj,
    Option.bind_some, List.getElem?_map, getElem?_patterns hkind]
  rfl

theorem length_comparisons (escape : Char) (supply : NameSupply) (ps : List (String × Text)) :
    (comparisons escape supply ps).1.length = ps.length := by
  induction ps generalizing supply with
  | nil => rfl
  | cons p ps ih => exact congrArg Nat.succ (ih _)

theorem length_bindings_comparisons (escape : Char) (supply : NameSupply)
    (ps : List (String × Text)) :
    ((comparisons escape supply ps).1.flatMap (·.bindings)).length = ps.length := by
  induction ps generalizing supply with
  | nil => rfl
  | cons p ps ih => exact congrArg Nat.succ (ih _)

/-- Names are drawn comparison by comparison. -/
theorem getElem?_comparisons (escape : Char) (supply : NameSupply) (ps : List (String × Text))
    (k : Nat) : (comparisons escape supply ps).1[k]? = ps[k]?.map fun p =>
      Condition.like escape p.1 (supply.name (supply.count + 1 + k)) p.2 := by
  induction ps generalizing supply k with
  | nil => rfl
  | cons p ps ih =>
    cases k with
    | zero => rfl
    | succ k =>
      refine (ih supply.next.2 k).trans ?_
      rw [List.getElem?_cons_succ]
      simp only [NameSupply.next, NameSupply.name, Nat.add_assoc, Nat.add_comm 1 k]

/-! ## The condition -/

theorem text_condition (escape : Char) (words : Bool) (columns terms : List String)
    (supply : NameSupply) : (condition escape words columns terms supply).1.text =
      " OR ".intercalate
        ((comparisons escape supply (alternatives escape words columns terms)).1.map (·.text)) :=
  rfl

/-- Texts that compare each column with each term in `kinds` ways, column by column and term by
term, under names that follow `count` others and that `Binds` the patterns. -/
structure Alternatives (escape : Char) (columns terms : List String) (kinds count : Nat)
    (Binds : String → Value → Prop) (texts : List String) : Prop where
  length_eq : texts.length = columns.length * terms.length * kinds
  getElem?_eq : ∀ i (hi : i < columns.length) j (hj : j < terms.length) kind, kind < kinds →
    let index := (i * terms.length + j) * kinds + kind
    let name := "s" ++ toString (count + 1 + index)
    texts[index]? = some (columns[i] ++ " LIKE :" ++ name ++ " ESCAPE '" ++
        String.singleton escape ++ "'") ∧
      Binds name (.text (String.ofList (pattern escape kind terms[j])))

theorem Alternatives.mono {kinds count : Nat} {Binds Binds' : String → Value → Prop}
    {texts : List String} (h : Alternatives escape columns terms kinds count Binds texts)
    (hbinds : ∀ name v, Binds name v → Binds' name v) :
    Alternatives escape columns terms kinds count Binds' texts := by
  refine ⟨h.length_eq, fun i hi j hj kind hkind => ?_⟩
  obtain ⟨htext, hbound⟩ := h.getElem?_eq i hi j hj kind hkind
  exact ⟨htext, hbinds _ _ hbound⟩

theorem alternatives_condition (escape : Char) (words : Bool) (columns terms : List String)
    (hstem : supply.stem = "s") :
    ∃ texts, (condition escape words columns terms supply).1.text = " OR ".intercalate texts ∧
      Alternatives escape columns terms (kinds words) supply.count
        (fun name v => (name, v) ∈ (condition escape words columns terms supply).1.bindings)
        texts := by
  refine ⟨_, text_condition escape words columns terms supply, ?_, ?_⟩
  · rw [List.length_map, length_comparisons, length_alternatives]
  · intro i hi j hj kind hkind index name
    have hlike := getElem?_comparisons escape supply (alternatives escape words columns terms) index
    rw [getElem?_alternatives hi hj hkind, Option.map_some] at hlike
    have hname : supply.name (supply.count + 1 + index) = name := by
      rw [NameSupply.name, hstem]
    rw [hname] at hlike
    refine ⟨?_, ?_⟩
    · rw [List.getElem?_map, hlike]
      rfl
    · refine List.mem_flatMap.2 ⟨_, List.mem_of_getElem? hlike, ?_⟩
      exact List.mem_singleton_self _

theorem length_names_condition (escape : Char) (words : Bool) (columns terms : List String)
    (supply : NameSupply) : (condition escape words columns terms supply).1.names.length =
      columns.length * terms.length * kinds words := by
  rw [Condition.names, List.length_map, ← length_alternatives escape]
  exact length_bindings_comparisons escape supply _

/-- Without columns or terms there is nothing to write. -/
theorem condition_eq_empty (h : columns = [] ∨ terms = []) :
    condition escape words columns terms supply = ({}, supply) := by
  have hnone : alternatives escape words columns terms = [] := by
    rcases h with rfl | rfl <;> simp [alternatives]
  have hcolumns : (if terms.isEmpty then [] else columns) = [] := by
    rcases h with rfl | rfl <;> simp
  rw [condition, hnone, hcolumns]
  rfl

theorem isEmpty_condition_iff : (condition escape words columns terms supply).1.isEmpty = true ↔
    columns = [] ∨ terms = [] := by
  constructor
  · intro hempty
    by_contra hne
    obtain ⟨hcolumns, hterms⟩ := not_or.1 hne
    have hnone : (comparisons escape supply (alternatives escape words columns terms)).1 ≠ [] := by
      rw [← List.length_pos_iff, length_comparisons, length_alternatives]
      have hkinds : 0 < kinds words := by cases words <;> decide
      exact Nat.mul_pos (Nat.mul_pos (List.length_pos_iff.2 hcolumns)
        (List.length_pos_iff.2 hterms)) hkinds
    obtain ⟨c, cs, hcs⟩ := List.exists_cons_of_ne_nil hnone
    have hlike := getElem?_comparisons escape supply (alternatives escape words columns terms) 0
    rw [hcs, List.getElem?_cons_zero] at hlike
    obtain ⟨p, -, rfl⟩ := Option.map_eq_some_iff.1 hlike.symm
    have htext : (condition escape words columns terms supply).1.text = "" := by
      simpa [Condition.isEmpty] using hempty
    have hblank : ' ' ∈ (condition escape words columns terms supply).1.text.toList := by
      rw [text_condition, hcs, String.toList_intercalate]
      cases cs <;> simp [Condition.like]
    rw [htext] at hblank
    cases hblank
  · intro h
    rw [condition_eq_empty h]
    rfl

end Search

end QueryClauses
