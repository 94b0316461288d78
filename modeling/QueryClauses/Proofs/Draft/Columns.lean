import QueryClauses.Proofs.Condition.Fragments
import QueryClauses.Proofs.Draft.Steps

/-!
# The columns that a request writes

Whatever the settings are, a request writes only columns that the catalog offers for a field that
the request names, so that the field has been checked, and one more: the last of the sort keys is on
the identity field of an entity, which is written as the settings have it (`written_columns`).
Settings that are checked have checked that field too; others may have anything there
(`unchecked_identity_field`).
-/

namespace QueryClauses

open Sql

/-- The fields that a request names, each with its entity. -/
def Request.fieldList : Request → List (String × String)
  | .conditions filters search _ => Filter.fieldList filters ++ search.elim [] Search.fieldList
  | .sortKeys keys _ => keys.map fun key => (key.entity, key.field)

/-- A statement with a text that a request adds to it. -/
def Request.insert : Request → Text → Text → Text
  | .conditions .. => Sql.addCondition
  | .sortKeys .. => Sql.addSortKeys

/-- A fragment that may be written for some fields with settings and values: its name is bound, and
its column is one that the catalog offers for one of the fields. -/
inductive Fragment.Allowed (settings : Settings) (bindings : Bindings)
    (fields : List (String × String)) : Fragment → Prop
  | mark {s : String} (listed : s ∈ Fragment.marks) : Allowed settings bindings fields (.mark s)
  | placeholder {name : String} (bound : name ∈ bindings) :
      Allowed settings bindings fields (.placeholder name)
  | escape : Allowed settings bindings fields (.escape settings.escape)
  | column {name field : String} {entity : Entity} (named : (name, field) ∈ fields)
      (offered : settings.catalog.Offers name field entity) :
      Allowed settings bindings fields (.column entity.tableAlias field)

namespace Fragment

/-- The field of a column is one or more segments joined by points. -/
def IsChecked : Fragment → Prop
  | .column _ field => ∀ piece ∈ Identifier.segments field.toList, Identifier.IsSegment piece
  | _ => True

variable {settings : Settings} {bindings : Bindings} {fields : List (String × String)}

theorem Allowed.isChecked {f : Fragment} (h : f.Allowed settings bindings fields) :
    f.IsChecked := by
  cases h with
  | mark | placeholder | escape => trivial
  | column _ hoffers => exact Identifier.checkField_eq_ok_iff.1 hoffers.checked

theorem Allowed.isColumn {tableAlias field : String}
    (h : (Fragment.column tableAlias field).Allowed settings bindings fields)
    (hsettings : settings.check = .ok ()) :
    IsColumn (Identifier.qualify tableAlias field).toList := by
  cases h with
  | column _ hoffers =>
    exact isColumn_of_column (Settings.of_check hsettings).2
      (Catalog.column_eq_ok_iff.2 ⟨_, hoffers, rfl⟩)

end Fragment

namespace Draft

variable {draft next : Draft} {request : Request}

/-! ## The last sort key -/

theorem sortColumns_ne_nil {keys : List SortKey} {columns : List (String × Direction)}
    (hgiven : keys ≠ []) (h : draft.sortColumns keys = .ok columns) : columns ≠ [] := by
  obtain ⟨key, keys, rfl⟩ := List.exists_cons_of_ne_nil hgiven
  rw [sortColumns, List.mapM_cons] at h
  obtain ⟨column, -, h⟩ := bind_eq_ok.1 h
  obtain ⟨rest, -, h⟩ := bind_eq_ok.1 h
  cases h
  exact List.cons_ne_nil _ _

/-- The entity on whose identity field a request for sort keys writes a last key: that of the
request, unless one of its keys is on that field. -/
def tiebreaker? (draft : Draft) : Request → Option Entity
  | .conditions .. => none
  | .sortKeys keys name =>
    (draft.settings.catalog.find name).toOption.filter fun entity =>
      !((draft.sortColumns keys).toOption.getD []).any
        (·.1 == Identifier.qualify entity.tableAlias entity.idField)

/-- What is written for a last key on the identity field of an entity. -/
def tiebreaker (entity : Entity) : List Fragment :=
  [.mark ", ", .column entity.tableAlias entity.idField, .mark " ", .mark "ASC"]

/-- The last key is on a field that is one or more segments joined by points exactly if the identity
field that it is on is. -/
theorem isChecked_tiebreaker (e? : Option Entity) :
    (∀ f ∈ e?.elim [] tiebreaker, f.IsChecked) ↔
      ∀ e ∈ e?, Identifier.checkField e.idField = .ok () := by
  cases e? with
  | none => simp
  | some e => simp [tiebreaker, Fragment.IsChecked, Identifier.checkField_eq_ok_iff]

theorem isColumn_tiebreaker (hsettings : draft.settings.check = .ok ()) {tableAlias field : String}
    (h : .column tableAlias field ∈ (draft.tiebreaker? request).elim [] tiebreaker) :
    IsColumn (Identifier.qualify tableAlias field).toList := by
  cases request with
  | conditions filters search words => cases h
  | sortKeys keys name =>
    cases hlast : draft.tiebreaker? (.sortKeys keys name) with
    | none =>
      rw [hlast] at h
      cases h
    | some entity =>
      rw [hlast] at h
      obtain ⟨rfl, rfl⟩ : tableAlias = entity.tableAlias ∧ field = entity.idField := by
        simpa [tiebreaker] using h
      have hfound : draft.settings.catalog.find name = .ok entity := by
        rw [tiebreaker?, Option.filter_eq_some_iff] at hlast
        cases hfind : draft.settings.catalog.find name with
        | error failure =>
          rw [hfind] at hlast
          cases hlast.1
        | ok found =>
          rw [hfind] at hlast
          exact congrArg Except.ok (Option.some.inj hlast.1)
      exact isColumn_of_idColumn (Settings.of_check hsettings).2
        (Catalog.idColumn_eq_ok_iff.2 ⟨entity, hfound, rfl⟩)

/-! ## Conditions -/

section

variable {P : Fragment → Prop} (hmarks : ∀ s ∈ Fragment.marks, P (.mark s))
include hmarks

theorem composed_searchCondition (hescape : P (.escape draft.settings.escape))
    {filtered : List String} {search : Option Search} {words : Bool} {c : Condition}
    {supply : NameSupply} (h : draft.searchCondition filtered search words = .ok (c, supply))
    (hnames : ∀ name ∈ c.names, P (.placeholder name))
    (hcolumns : ∀ name field entity, (name, field) ∈ search.elim [] Search.fieldList →
      draft.settings.catalog.Offers name field entity → P (.column entity.tableAlias field)) :
    Composed P c.text.toList := by
  rcases searchCondition_eq_ok h with ⟨-, h⟩ | ⟨search', columns, rfl, hsearched, h⟩
  · cases h
    exact .nil
  · obtain ⟨rfl, -⟩ := Prod.mk.inj h
    refine Search.composed_condition hmarks hescape hnames fun column hcolumn => ?_
    obtain ⟨⟨name, field⟩, hfield, hfound⟩ :=
      (Search.mem_columns_iff hsearched).1 (List.mem_of_mem_filter hcolumn)
    obtain ⟨entity, hoffers, rfl⟩ := Catalog.column_eq_ok_iff.1 hfound
    exact ⟨entity.tableAlias, field, rfl, hcolumns name field entity hfield hoffers⟩

/-- The text of an addition is made of columns of the fields that its request names. -/
theorem composed_addition (hescape : P (.escape draft.settings.escape)) {filters : List Filter}
    {search : Option Search} {words : Bool} {addition : Addition} {condition : String}
    (hgenerate : draft.generate filters search words = .ok addition)
    (htext : addition.text? = some condition)
    (hnames : ∀ name ∈ addition.names, P (.placeholder name))
    (hcolumns : ∀ name field entity,
      (name, field) ∈ (Request.conditions filters search words).fieldList →
      draft.settings.catalog.Offers name field entity → P (.column entity.tableAlias field)) :
    Composed P condition.toList := by
  obtain ⟨hfilters, hsearch⟩ := generate_eq_ok hgenerate
  have hsplit : addition.names = addition.filtered.names ++ addition.searched.names :=
    List.map_append
  rw [hsplit, List.forall_mem_append] at hnames
  have hfiltered := Condition.composed_ofFilters hmarks hescape hfilters hnames.1
    fun name field entity hmem => hcolumns name field entity (List.mem_append_left _ hmem)
  have hsearched := composed_searchCondition hmarks hescape hsearch hnames.2
    fun name field entity hmem => hcolumns name field entity (List.mem_append_right _ hmem)
  have hall : ∀ c ∈ [addition.filtered, addition.searched].filter (!·.isEmpty),
      Composed P ("(" ++ c.text ++ ")").toList := by
    intro c hc
    have hc := List.mem_of_mem_filter hc
    simp only [List.mem_cons, List.not_mem_nil, or_false] at hc
    rw [String.toList_append, String.toList_append]
    have hopen : Composed P "(".toList := .mark hmarks (by decide)
    have hclose : Composed P ")".toList := .mark hmarks (by decide)
    rcases hc with rfl | rfl
    · exact (hopen.append hfiltered).append hclose
    · exact (hopen.append hsearched).append hclose
  simp only [Addition.text?] at htext
  split at htext
  · cases htext
  · cases htext
    rw [String.toList_intercalate, List.map_map]
    exact (Composed.mark hmarks (by decide)).intercalate (List.forall_mem_map.2 hall)

/-! ## Sort keys -/

theorem composed_write {tableAlias field : String} (hcolumn : P (.column tableAlias field)) (style : SortStyle)
    (d : Direction) :
    Composed P (style.write (Identifier.qualify tableAlias field) d).toList := by
  have hmark : ∀ {s}, s ∈ Fragment.marks → Composed P s.toList := .mark hmarks
  have hcol : Composed P (Identifier.qualify tableAlias field).toList := .fragment hcolumn
  have hkeyword : Composed P d.keyword.toList := hmark (by cases d <;> decide)
  have hblank : Composed P " ".toList := hmark (by decide)
  cases style with
  | native =>
    have hwords : Composed P (SortStyle.nativeWords d.nulls?).toList := by
      cases d.nulls? with
      | none => exact .nil
      | some place => cases place <;> exact hmark (by decide)
    simp only [SortStyle.write, String.toList_append]
    exact ((hcol.append hblank).append hkeyword).append hwords
  | caseWhenNulls =>
    have hkey : Composed P
        (SortStyle.caseKey (Identifier.qualify tableAlias field) d.nulls?).toList := by
      cases d.nulls? with
      | none => exact .nil
      | some place =>
        have hcase : Composed P "CASE WHEN ".toList := hmark (by decide)
        have hnull : Composed P " IS NULL THEN 0 ELSE 1 END ".toList := hmark (by decide)
        have hlead := (hcase.append hcol).append hnull
        have hcomma : Composed P ", ".toList := hmark (by decide)
        cases place with
        | first =>
          simp only [SortStyle.caseKey, String.toList_append]
          exact (hlead.append (hmark (by decide))).append hcomma
        | last =>
          simp only [SortStyle.caseKey, String.toList_append]
          exact (hlead.append (hmark (by decide))).append hcomma
    simp only [SortStyle.write, String.toList_append]
    exact ((hkey.append hcol).append hblank).append hkeyword

/-- The text of sort keys is made of columns of the fields of the keys, and of the last key. -/
theorem composed_sortKeysText {keys : List SortKey} {name : String} {text : Text}
    (hgiven : keys ≠ []) (hwritten : draft.sortKeysText keys name = .ok text)
    (hcolumns : ∀ name' field entity, (name', field) ∈ (Request.sortKeys keys name).fieldList →
      draft.settings.catalog.Offers name' field entity → P (.column entity.tableAlias field)) :
    ∃ fs, (∀ f ∈ fs, P f) ∧
      text = writing (fs ++ (draft.tiebreaker? (.sortKeys keys name)).elim [] tiebreaker) := by
  obtain ⟨idColumn, hid, columns, hsorted, rfl⟩ := sortKeysText_eq_ok.1 hwritten
  obtain ⟨entity, hfound, rfl⟩ := Catalog.idColumn_eq_ok_iff.1 hid
  have hparts : ∀ part ∈ columns.map fun key => (draft.settings.sortStyle.write key.1 key.2).toList,
      Composed P part := by
    refine List.forall_mem_map.2 fun key hkey => ?_
    obtain ⟨k, hk, hcolumn⟩ := mem_sortColumns hsorted hkey
    obtain ⟨e, hoffers, heq⟩ := Catalog.column_eq_ok_iff.1 hcolumn
    rw [heq]
    exact composed_write hmarks
      (hcolumns k.entity k.field e (List.mem_map_of_mem hk) hoffers) _ _
  have hcomma : Composed P ", ".toList := .mark hmarks (by decide)
  obtain ⟨fs, hfs, hallowed⟩ := hcomma.intercalate hparts
  refine ⟨fs, hallowed, ?_⟩
  -- The last key is the last of the texts that are joined, what stands in front of it is by itself.
  have htext : draft.sortText (Identifier.qualify entity.tableAlias entity.idField) columns =
      ", ".toList.intercalate (columns.map
          (fun key => (draft.settings.sortStyle.write key.1 key.2).toList) ++
        if columns.any (·.1 == Identifier.qualify entity.tableAlias entity.idField) then []
        else [(Identifier.qualify entity.tableAlias entity.idField).toList ++ " ASC".toList]) := by
    rw [sortText, sortKeyTexts, String.toList_intercalate, List.map_append, List.map_map]
    congr 2
    split <;> simp
  have hlast : draft.tiebreaker? (.sortKeys keys name) =
      if columns.any (·.1 == Identifier.qualify entity.tableAlias entity.idField) then none
      else some entity := by
    rw [tiebreaker?, hfound, hsorted]
    simp only [Except.toOption, Option.filter_some, Option.getD_some]
    cases columns.any _ <;> rfl
  rw [htext, hlast]
  split
  · rw [List.append_nil, hfs, Option.elim_none, List.append_nil]
  · rw [intercalate_append_singleton _ _ (by simpa using sortColumns_ne_nil hgiven hsorted), hfs,
      writing_append]
    simp [writing, tiebreaker, Fragment.text]

end

/-! ## Every request -/

/-- What a step writes has only columns of the fields that its request names, and the last key. -/
theorem Step.exists_writing (h : draft.Step request next) : next = draft ∨
    ∃ fs, next.text =
        request.insert (writing (fs ++ (draft.tiebreaker? request).elim [] tiebreaker)) draft.text ∧
      ∀ f ∈ fs, f.Allowed draft.settings next.bindings request.fieldList := by
  cases h with
  | idle => exact .inl rfl
  | @condition filters search words addition condition hgenerate htext =>
    obtain ⟨fs, hfs, hallowed⟩ := composed_addition
      (P := Fragment.Allowed draft.settings (draft.extended addition condition).bindings
        (Request.conditions filters search words).fieldList)
      (fun _ => .mark) .escape hgenerate htext
      (fun name hname => .placeholder (mem_bindings_extended.2 (.inr hname)))
      fun _ _ _ => .column
    refine .inr ⟨fs, ?_, hallowed⟩
    rw [tiebreaker?, Option.elim_none, List.append_nil, ← hfs]
    rfl
  | @sortKeys keys entity text hkeys hwritten =>
    obtain ⟨fs, hallowed, hfs⟩ := composed_sortKeysText
      (P := Fragment.Allowed draft.settings (draft.sorted text).bindings
        (Request.sortKeys keys entity).fieldList)
      (fun _ => .mark) hkeys hwritten fun _ _ _ => .column
    exact .inr ⟨fs, by rw [← hfs]; rfl, hallowed⟩

/-- A request that is made of a draft, behind any others and with any settings, fails and leaves the
draft as it was, or writes nothing, or writes what has only columns of the fields that it names,
each checked and offered by the catalog, and the last key behind them. So the columns that it writes
have checked fields exactly if the identity field of the last key passes the check. With settings
that pass, all of them are qualified names. -/
theorem written_columns (settings : Settings) (entity : String) (kind : QueryKind) (skeleton : Text)
    (requests : List Request) (request : Request) :
    let draft := (start settings entity kind skeleton).attempts requests
    let last := (draft.tiebreaker? request).elim [] tiebreaker
    (∃ failure, draft.handle request = (.error failure, draft)) ∨
      ∃ next, draft.handle request = (.ok (), next) ∧
        (next = draft ∨ ∃ fs, next.text = request.insert (writing (fs ++ last)) draft.text ∧
          (∀ f ∈ fs, f.Allowed settings next.bindings request.fieldList) ∧
          ((∀ f ∈ fs ++ last, f.IsChecked) ↔
            ∀ e ∈ draft.tiebreaker? request, Identifier.checkField e.idField = .ok ()) ∧
          (settings.check = .ok () → ∀ tableAlias field, .column tableAlias field ∈ fs ++ last →
            IsColumn (Identifier.qualify tableAlias field).toList)) := by
  intro draft last
  have hsettings : draft.settings = settings := settings_attempts _ requests
  cases hgrant : draft.grant request with
  | error failure => exact .inl ⟨failure, handle_of_error hgrant⟩
  | ok next =>
    refine .inr ⟨next, handle_of_ok hgrant, ?_⟩
    obtain rfl | ⟨fs, htext, hallowed⟩ := (step_of_grant hgrant).exists_writing
    · exact .inl rfl
    rw [hsettings] at hallowed
    refine .inr ⟨fs, htext, hallowed, ?_, fun hcheck tableAlias field hmem => ?_⟩
    · rw [List.forall_mem_append, and_iff_right fun f hf => (hallowed f hf).isChecked]
      exact isChecked_tiebreaker _
    · rcases List.mem_append.1 hmem with hmem | hmem
      · exact (hallowed _ hmem).isColumn hcheck
      · exact isColumn_tiebreaker (hsettings ▸ hcheck) hmem

/-- Settings that were never checked, with more than a field name in place of one. -/
def uncheckedSettings : Settings where
  catalog := Catalog.insert {} "Item" { tableAlias := "i", idField := "id, 1 DESC" }

/-- Sort keys bring an identity field that is no field name into the statement. -/
theorem unchecked_identity_field :
    uncheckedSettings.check.toOption = none ∧
      Identifier.checkField "id, 1 DESC" = .error (.badCharacter "id, 1 DESC" ',') ∧
      ((start uncheckedSettings "Item" .native "SELECT i.* FROM items i".toList).addSortKeys
          [⟨"Item", "name", .asc⟩] "Item").toOption.map (·.text) =
        some "SELECT i.* FROM items i ORDER BY i.name ASC, i.id, 1 DESC ASC".toList :=
  ⟨by decide +kernel, by decide +kernel, by decide +kernel⟩

end Draft

end QueryClauses
