import QueryClauses.Proofs.Condition.Fragments
import QueryClauses.Proofs.Draft.Run
import QueryClauses.Proofs.SortKey.Reading

/-!
# Sort keys that tell rows apart

The sort keys of a request are followed by one on the identity column of an entity, unless one of
them is on that column already. So, in either style, rows that all of them leave together have the
same identity, and pages of the result do not overlap (`ties_have_one_identity`).
-/

namespace QueryClauses

open Sql

namespace Draft

/-- Sort keys and one on the identity column behind them, unless one of them is on it. -/
def withIdentity (idColumn : String) (keys : List (String × Direction)) :
    List (String × Direction) :=
  keys ++ if keys.any (·.1 == idColumn) then [] else [(idColumn, .asc)]

theorem sortKeyTexts_eq (style : SortStyle) (idColumn : String) (keys : List (String × Direction)) :
    sortKeyTexts style idColumn keys =
      (withIdentity idColumn keys).map fun key => style.write key.1 key.2 := by
  have hlast : style.write idColumn .asc = idColumn ++ " ASC" := by
    apply String.toList_injective
    cases style <;> simp [SortStyle.write, SortStyle.caseKey, SortStyle.nativeWords,
      Direction.keyword, Direction.isDescending, Direction.nulls?]
  rw [sortKeyTexts, withIdentity, List.map_append]
  split
  · rfl
  · rw [List.map_singleton, hlast]

theorem exists_mem_withIdentity (idColumn : String) (keys : List (String × Direction)) :
    ∃ d, (idColumn, d) ∈ withIdentity idColumn keys := by
  cases h : keys.any (·.1 == idColumn) with
  | true =>
    obtain ⟨key, hkey, heq⟩ := List.any_eq_true.1 h
    obtain rfl : key.1 = idColumn := by simpa using heq
    exact ⟨key.2, List.mem_append_left _ hkey⟩
  | false =>
    refine ⟨.asc, List.mem_append_right _ ?_⟩
    rw [h]
    exact List.mem_singleton_self _

theorem mem_withIdentity {idColumn : String} {keys : List (String × Direction)}
    {key : String × Direction} (h : key ∈ withIdentity idColumn keys) :
    key ∈ keys ∨ key.1 = idColumn := by
  rcases List.mem_append.1 h with h | h
  · exact .inl h
  · split at h
    · cases h
    · rw [List.mem_singleton.1 h]
      exact .inr rfl

theorem forall₂_sortColumns {draft : Draft} {keys : List SortKey}
    {columns : List (String × Direction)} (h : draft.sortColumns keys = .ok columns) :
    List.Forall₂ (fun key column => draft.settings.catalog.column key.entity key.field =
      .ok column.1 ∧ key.direction = column.2) keys columns := by
  refine (mapM_eq_ok_iff.1 h).imp fun key column hcolumn => ?_
  cases hfound : draft.settings.catalog.column key.entity key.field with
  | error failure =>
    rw [hfound] at hcolumn
    cases hcolumn
  | ok found =>
    rw [hfound] at hcolumn
    cases hcolumn
    exact ⟨rfl, rfl⟩

/-- A column is sorted by if it is that of a key. -/
theorem any_sortColumns_iff {draft : Draft} {keys : List SortKey}
    {columns : List (String × Direction)} (h : draft.sortColumns keys = .ok columns)
    {column : String} : columns.any (·.1 == column) = true ↔
      ∃ key ∈ keys, draft.settings.catalog.column key.entity key.field = .ok column := by
  have hpairs := forall₂_sortColumns h
  clear h
  induction hpairs with
  | nil => simp
  | cons hkey _ ih =>
    rw [List.any_cons, Bool.or_eq_true, beq_iff_eq, List.exists_mem_cons_iff, hkey.1,
      Except.ok.injEq]
    exact or_congr_right ih

/-- Rows that the keys of a request and the key on the identity column leave together have the same
identity. -/
theorem eq_of_compareRows_withIdentity {α : String → Type*} [∀ column, LinearOrder (α column)]
    {defaults : NullDefault} {style : SortStyle} {idColumn : String}
    {keys : List (String × Direction)} {r s : Row α}
    (h : compareRows defaults
      ((withIdentity idColumn keys).flatMap fun key => style.rowKeys key.1 key.2) r s = .eq) :
    r idColumn = s idColumn := by
  obtain ⟨d, hmem⟩ := exists_mem_withIdentity idColumn keys
  obtain ⟨descending, nulls, hkey⟩ := style.exists_value_mem_rowKeys idColumn d
  exact eq_of_compareRows_eq (List.mem_flatMap.2 ⟨_, hmem, hkey⟩) h

/-- A request for sort keys that succeeds writes its keys in their order, and behind them one on the
identity column of its entity exactly if none of them is on that column. Rows that tie under all
that is written have the same value in the identity column. -/
theorem ties_have_one_identity {draft next : Draft} {keys : List SortKey} {name : String}
    (hsettings : draft.settings.check = .ok ()) (hkeys : keys ≠ [])
    (hnext : draft.addSortKeys keys name = .ok next) :
    ∃ entity columns last rowKeys, draft.settings.catalog.find name = .ok entity ∧
      let idColumn := Identifier.qualify entity.tableAlias entity.idField
      let texts := columns.map
        (fun column : String × Direction => draft.settings.sortStyle.write column.1 column.2) ++ last
      List.Forall₂ (fun key column => draft.settings.catalog.column key.entity key.field =
        .ok column.1 ∧ key.direction = column.2) keys columns ∧
      ((∃ key ∈ keys, draft.settings.catalog.column key.entity key.field = .ok idColumn) ∧
          last = [] ∨
        (¬ ∃ key ∈ keys, draft.settings.catalog.column key.entity key.field = .ok idColumn) ∧
          last = [idColumn ++ " ASC"]) ∧
      next.text = Sql.addSortKeys (", ".intercalate texts).toList draft.text ∧
      RowKey.readAll? (", ".intercalate texts).toList = some rowKeys ∧
      ∀ {α : String → Type*} [∀ column, LinearOrder (α column)] (defaults : NullDefault)
        (r s : Row α), compareRows defaults rowKeys r s = .eq → r idColumn = s idColumn := by
  obtain ⟨-, hcatalog⟩ := Settings.of_check hsettings
  obtain ⟨idColumn, hid, ⟨hnil, -⟩ | ⟨-, columns, hcolumns, rfl⟩⟩ := addSortKeys_eq_ok hnext
  · exact absurd hnil hkeys
  obtain ⟨entity, hfound, rfl⟩ := Catalog.idColumn_eq_ok_iff.1 hid
  have hpairs := forall₂_sortColumns hcolumns
  have hplain : ∀ key ∈ withIdentity (Identifier.qualify entity.tableAlias entity.idField) columns,
      IsPlainWord key.1.toList := by
    intro key hkey
    rcases mem_withIdentity hkey with hkey | hkey
    · obtain ⟨k, -, hk⟩ := mem_sortColumns hcolumns hkey
      exact (isColumn_of_column hcatalog hk).isPlainWord
    · rw [hkey]
      exact (isColumn_of_idColumn hcatalog hid).isPlainWord
  have hne : withIdentity (Identifier.qualify entity.tableAlias entity.idField) columns ≠ [] := by
    obtain ⟨d, hmem⟩ := exists_mem_withIdentity
      (Identifier.qualify entity.tableAlias entity.idField) columns
    exact List.ne_nil_of_mem hmem
  have hread := SortStyle.readAll?_write draft.settings.sortStyle hne hplain
  rw [← sortKeyTexts_eq] at hread
  refine ⟨entity, columns, _, _, hfound, hpairs, ?_, rfl, hread,
    fun defaults r s => eq_of_compareRows_withIdentity⟩
  rw [← any_sortColumns_iff hcolumns]
  cases columns.any _ with
  | true => exact .inl ⟨rfl, rfl⟩
  | false => exact .inr ⟨Bool.false_ne_true, rfl⟩

theorem ties_have_one_identity_byName :
    itemSettings.check = .ok () ∧ ∃ next rowKeys,
      (start itemSettings "Item" .native "SELECT i.* FROM items i".toList).addSortKeys
        [⟨"Item", "name", .descNullsLast⟩] "Item" = .ok next ∧
      next.text =
        "SELECT i.* FROM items i ORDER BY i.name DESC NULLS LAST, i.id ASC".toList ∧
      RowKey.readAll? "i.name DESC NULLS LAST, i.id ASC".toList = some rowKeys ∧
      ∀ (defaults : NullDefault) (r s : Row fun _ => Nat),
        compareRows defaults rowKeys r s = .eq → r "i.id" = s "i.id" := by
  have hsettings : itemSettings.check = .ok () := rfl
  obtain ⟨next, hnext⟩ := @exists_eq_ok _ _ ((start itemSettings "Item" .native
    "SELECT i.* FROM items i".toList).addSortKeys [⟨"Item", "name", .descNullsLast⟩] "Item")
    (by decide +kernel)
  obtain ⟨entity, columns, last, rowKeys, hfound, hcolumns, hlast, htext, hread, hties⟩ :=
    ties_have_one_identity.{0} hsettings (List.cons_ne_nil _ _) hnext
  cases hfound
  cases hcolumns with
  | @cons _ column _ _ hcolumn hnil =>
    cases hnil
    obtain ⟨column, direction⟩ := column
    obtain ⟨hname, rfl⟩ := hcolumn
    cases hname
    rcases hlast with ⟨⟨key, hkey, hid⟩, -⟩ | ⟨-, rfl⟩
    · rw [List.mem_singleton.1 hkey] at hid
      exact absurd (Except.ok.inj hid) (by decide)
    · refine ⟨hsettings, next, rowKeys, hnext, htext.trans ?_, hread, hties⟩
      decide +kernel

end Draft

end QueryClauses
