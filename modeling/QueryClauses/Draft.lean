import QueryClauses.Condition.Rendering
import QueryClauses.Query
import QueryClauses.Search
import QueryClauses.Sql.Extension

/-!
# Drafts of queries

A draft starts as a statement over an entity. Conditions and sort keys are added to it by calls,
until it is finished. A call changes the draft part by part and may fail in between; a draft is left
behind it also then. Names of placeholders are handed out across calls, so that none is used twice.
-/

namespace QueryClauses

/-- A statement that clauses are being added to. -/
structure Draft where
  settings : Settings
  /-- The entity that the query is over. -/
  entity : String
  kind : QueryKind
  text : Text
  bindings : Bindings := ∅
  filterSupply : NameSupply := .forFilters
  searchSupply : NameSupply := .forSearch
  /-- Whether anything has been added. -/
  changed : Bool := false

/-- A call on a draft. What it has made of the draft stays, whether it succeeds or fails. -/
abbrev Call := ExceptT Failure (StateM Draft)

namespace Draft

/-- The draft that is nothing but a statement over an entity. -/
def start (settings : Settings) (entity : String) (kind : QueryKind) (text : Text) : Draft :=
  { settings, entity, kind, text }

/-- The draft behind a call, if that succeeds. -/
def after (draft : Draft) (call : Call Unit) : Except Failure Draft :=
  match call.run.run draft with
  | (.ok (), next) => .ok next
  | (.error failure, _) => .error failure

/-! ## Conditions -/

/-- The condition of a search in the fields that are not filtered, and the names that are left. -/
def searchCondition (draft : Draft) (filtered : List String) (search : Option Search)
    (words : Bool) : Except Failure (Condition × NameSupply) :=
  match search.filter (!·.isEmpty) with
  | none => .ok ({}, draft.searchSupply)
  | some search => do
    let columns ← search.columns draft.settings.catalog
    let columns := columns.toList.filter (!filtered.contains ·)
    let words := draft.settings.searchesWords draft.entity words
    return Search.condition draft.settings.escape words columns search.terms draft.searchSupply

/-- The conditions that are generated for one request, and the names that are left. -/
structure Addition where
  filtered : Condition
  searched : Condition
  filterSupply : NameSupply
  searchSupply : NameSupply

namespace Addition

/-- The conditions that there are, each in parentheses and joined by AND, if there are any. -/
def text? (addition : Addition) : Option String :=
  let inner := [addition.filtered, addition.searched].filter (!·.isEmpty)
  if inner.isEmpty then none
  else some (" AND ".intercalate (inner.map fun c => "(" ++ c.text ++ ")"))

end Addition

end Draft

namespace Call

/-- Puts an addition into the draft, if it has a text. -/
def extend (addition : Draft.Addition) : Call Unit := do
  match addition.text? with
  | none => return
  | some condition =>
    if Sql.isCompound (← get).text then throw (.query .compound)
    modify fun draft => { draft with text := Sql.addCondition condition.toList draft.text }
    modify fun draft =>
      { draft with bindings := draft.bindings.insertMany addition.filtered.bindings }
    modify fun draft =>
      { draft with bindings := draft.bindings.insertMany addition.searched.bindings }
    modify fun draft => { draft with filterSupply := addition.filterSupply }
    modify fun draft => { draft with searchSupply := addition.searchSupply }
    modify fun draft => { draft with changed := true }

/-- Adds the conditions of filters and of a search, if there are any. Fields that a filter names are
not searched. -/
def addConditions (filters : List Filter) (search : Option Search) (words : Bool) : Call Unit := do
  let draft ← get
  let settings := draft.settings
  (Settings.checkEscape settings.escape).mapError Failure.settings
  -- These supplies are the call's own: those of the draft stay until everything is generated.
  let (filtered, filterSupply) :=
    Condition.generate settings.catalog settings.escape draft.filterSupply filters
  let filtered ← filtered
  let (searched, searchSupply) ← draft.searchCondition filtered.columns search words
  extend { filtered, searched, filterSupply, searchSupply }

end Call

/-! ## Sort keys -/

/-- Sort keys as texts, with a key on the identity column behind them unless they have one. -/
def Draft.sortKeyTexts (style : SortStyle) (idColumn : String) (keys : List (String × Direction)) :
    List String :=
  keys.map (fun key => style.write key.1 key.2) ++
    if keys.any (·.1 == idColumn) then [] else [idColumn ++ " ASC"]

/-- The columns that are sorted by, or the failure of the first key that has none. -/
def Draft.sortColumns (draft : Draft) (keys : List SortKey) :
    Except Failure (List (String × Direction)) :=
  keys.mapM fun key =>
    (draft.settings.catalog.column key.entity key.field).map fun column => (column, key.direction)

/-- Adds sort keys, if there are any, and a last one on the identity field of an entity, which has
to be known in any case. -/
def Call.addSortKeys (keys : List SortKey) (entity : String) : Call Unit := do
  let draft ← get
  let idColumn ← draft.settings.catalog.idColumn entity
  if keys.isEmpty then return
  let columns ← draft.sortColumns keys
  let texts := Draft.sortKeyTexts draft.settings.sortStyle idColumn columns
  modify fun draft =>
    { draft with text := Sql.addSortKeys (", ".intercalate texts).toList draft.text }
  modify fun draft => { draft with changed := true }

/-- Something to add to a draft. -/
inductive Request where
  | conditions (filters : List Filter) (search : Option Search) (words : Bool)
  | sortKeys (keys : List SortKey) (entity : String)

/-- The call that adds what is asked for. -/
def Request.call : Request → Call Unit
  | conditions filters search words => .addConditions filters search words
  | sortKeys keys entity => .addSortKeys keys entity

namespace Draft

/-- What comes of a request, and the draft behind it. -/
def handle (draft : Draft) (request : Request) : Except Failure Unit × Draft :=
  request.call.run.run draft

/-- The draft with conditions added. -/
def addConditions (draft : Draft) (filters : List Filter) (search : Option Search) (words : Bool) :
    Except Failure Draft :=
  draft.after (.addConditions filters search words)

/-- The draft with sort keys added. -/
def addSortKeys (draft : Draft) (keys : List SortKey) (entity : String) : Except Failure Draft :=
  draft.after (.addSortKeys keys entity)

/-! ## Finishing -/

/-- What becomes of a draft without an ORDER BY. -/
def missingOrderBy (draft : Draft) : Except Failure (List Event) :=
  let shown := draft.settings.shown draft.text
  match draft.settings.missingOrderBy with
  | .none => .ok []
  | .warning => .ok [.missingOrderBy draft.entity shown]
  | .strict => .error (.missingOrderBy shown)

/-- The finished query and the events of finishing it. -/
def finish (draft : Draft) : Except Failure (Query × List Event) := do
  let events ← if Sql.hasOrderBy draft.text then .ok [] else draft.missingOrderBy
  let bindings :=
    match draft.kind with
    | .native => Query.bindConstants draft.settings.constants draft.text draft.bindings
    | .object => draft.bindings
  let built := Event.built draft.kind bindings.size (draft.settings.shown draft.text)
  return (⟨draft.text, bindings, draft.kind⟩, events ++ [built])

end Draft

/-- The native query over an entity with conditions and sort keys added to a statement. -/
def Query.make (settings : Settings) (text : Text) (entity : String) (filters : List Filter)
    (search : Option Search) (keys : List SortKey) (words : Bool) : Except Failure Query := do
  let draft ← (Draft.start settings entity .native text).addConditions filters search words
  let draft ← draft.addSortKeys keys entity
  let (query, _) ← draft.finish
  return query

end QueryClauses
