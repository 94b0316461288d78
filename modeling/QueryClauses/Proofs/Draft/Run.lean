import QueryClauses.Proofs.Draft.Addition
import QueryClauses.Proofs.Draft.SortKey

/-!
# Runs of requests

A draft is made by requests for conditions and for sort keys, one after another. A request succeeds
only in the ways that `addConditions_eq_ok` and `addSortKeys_eq_ok` list; usable settings
and the stems of names stay as they were (`Sound.run`).
-/

namespace QueryClauses

open Sql

namespace Draft

/-- What a request for conditions can do: add nothing, or one condition to a single SELECT. -/
theorem addConditions_eq_ok {draft draft' : Draft} {filters : List Filter}
    {search : Option Search} {words : Bool}
    (h : draft.addConditions filters search words = .ok draft') :
    ∃ addition, draft.generate filters search words = .ok addition ∧
      (addition.text? = none ∧ draft' = draft ∨
        ∃ condition, addition.text? = some condition ∧ isCompound draft.text = false ∧
          draft' = draft.extended addition condition) := by
  rw [addConditions_eq] at h
  obtain ⟨addition, hgenerate, h⟩ := bind_eq_ok.1 h
  refine ⟨addition, hgenerate, ?_⟩
  unfold Draft.extend at h
  split at h
  · rename_i htext
    cases h
    exact .inl ⟨htext, rfl⟩
  · rename_i condition htext
    split at h
    · cases h
    · rename_i hcompound
      cases h
      exact .inr ⟨condition, htext, by simpa using hcompound, rfl⟩

/-- What a request for sort keys can do: add nothing, or all the keys and a last one. -/
theorem addSortKeys_eq_ok {draft draft' : Draft} {keys : List SortKey} {entity : String}
    (h : draft.addSortKeys keys entity = .ok draft') :
    ∃ idColumn, draft.settings.catalog.idColumn entity = .ok idColumn ∧
      (keys = [] ∧ draft' = draft ∨
        keys ≠ [] ∧ ∃ columns, draft.sortColumns keys = .ok columns ∧
          draft' = draft.sorted (draft.sortText idColumn columns)) := by
  rw [addSortKeys_eq] at h
  obtain ⟨idColumn, hid, h⟩ := bind_eq_ok.1 h
  refine ⟨idColumn, hid, ?_⟩
  by_cases hkeys : keys = []
  · subst hkeys
    cases h
    exact .inl ⟨rfl, rfl⟩
  · have hempty : keys.isEmpty = false := by simpa using hkeys
    rw [hempty] at h
    obtain ⟨columns, hcolumns, h⟩ := bind_eq_ok.1 h
    cases h
    exact .inr ⟨hkeys, columns, hcolumns, rfl⟩

/-- What is sorted by are columns of the fields of the keys. -/
theorem mem_sortColumns {draft : Draft} {keys : List SortKey} {columns : List (String × Direction)}
    (h : draft.sortColumns keys = .ok columns) {key : String × Direction} (hkey : key ∈ columns) :
    ∃ k ∈ keys, draft.settings.catalog.column k.entity k.field = .ok key.1 := by
  obtain ⟨k, hk, hcolumn⟩ := (mem_mapM_iff h).1 hkey
  refine ⟨k, hk, ?_⟩
  cases hc : draft.settings.catalog.column k.entity k.field with
  | error failure =>
    rw [hc] at hcolumn
    cases hcolumn
  | ok column =>
    rw [hc] at hcolumn
    cases hcolumn
    rfl

theorem Sound.isColumn_sortColumns {draft : Draft} (hdraft : draft.Sound)
    {entity idColumn : String} {keys : List SortKey} {columns : List (String × Direction)}
    (hid : draft.settings.catalog.idColumn entity = .ok idColumn)
    (hcolumns : draft.sortColumns keys = .ok columns) :
    IsColumn idColumn.toList ∧ ∀ key ∈ columns, IsColumn key.1.toList := by
  obtain ⟨-, hcatalog⟩ := Settings.of_check hdraft.settings
  refine ⟨isColumn_of_idColumn hcatalog hid, fun key hkey => ?_⟩
  obtain ⟨k, -, hk⟩ := mem_sortColumns hcolumns hkey
  exact isColumn_of_column hcatalog hk

theorem Sound.sortText {draft : Draft} (hdraft : draft.Sound) {entity idColumn : String}
    {keys : List SortKey} {columns : List (String × Direction)}
    (hid : draft.settings.catalog.idColumn entity = .ok idColumn)
    (hcolumns : draft.sortColumns keys = .ok columns) :
    Tidy (lex (draft.sortText idColumn columns)) [] := by
  obtain ⟨hidColumn, hisColumn⟩ := hdraft.isColumn_sortColumns hid hcolumns
  exact tidy_sortKeyTexts _ hidColumn hisColumn

theorem sound_start {settings : Settings} (h : settings.check = .ok ()) (entity : String)
    (kind : QueryKind) (text : Text) : (start settings entity kind text).Sound :=
  ⟨h, rfl, rfl⟩

theorem Sound.grant {draft draft' : Draft} (hdraft : draft.Sound) {request : Request}
    (h : draft.grant request = .ok draft') : draft'.Sound := by
  cases request with
  | conditions filters search words =>
    obtain ⟨addition, hgenerate, ⟨-, rfl⟩ | ⟨condition, -, -, rfl⟩⟩ := addConditions_eq_ok h
    · exact hdraft
    · have haddition := hdraft.generate hgenerate
      exact ⟨hdraft.settings, haddition.filterStem, haddition.searchStem⟩
  | sortKeys keys entity =>
    obtain ⟨idColumn, -, ⟨-, rfl⟩ | ⟨-, columns, -, rfl⟩⟩ := addSortKeys_eq_ok h
    · exact hdraft
    · exact ⟨hdraft.settings, hdraft.filterStem, hdraft.searchStem⟩

theorem Sound.run {draft draft' : Draft} (hdraft : draft.Sound) {requests : List Request}
    (h : draft.run requests = .ok draft') : draft'.Sound := by
  induction requests generalizing draft with
  | nil =>
    cases h
    exact hdraft
  | cons request requests ih =>
    obtain ⟨next, hnext, h⟩ := run_cons_eq_ok.1 h
    exact ih (hdraft.grant hnext) h

def itemSettings : Settings where
  catalog := Catalog.insert {} "Item" { tableAlias := "i" }

end Draft

end QueryClauses
