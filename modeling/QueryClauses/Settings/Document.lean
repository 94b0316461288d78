import QueryClauses.Settings
import QueryClauses.Toml.Document

/-!
# Settings documents

Settings are written as a TOML document. Keys that are not there have default values. The document
itself has no other keys than those of settings; the table of an entity may have others. A document
that is read is checked at once.
-/

namespace QueryClauses

namespace Toml.Node

/-- The string that a node is. -/
def string? : Node → Option String
  | string s => some s
  | _ => none

/-- The truth value that a node is. -/
def boolean? : Node → Option Bool
  | boolean b => some b
  | _ => none

/-- The number that a node is, if it is not negative and has at most 64 bits. -/
def count? : Node → Option Nat
  | integer n => n.toNat?.filter (· < Nat.pow 2 64)
  | _ => none

/-- The single character that a node is. -/
def char? (node : Node) : Option Char :=
  match node.string?.map String.toList with
  | some [c] => some c
  | _ => none

/-- The strings that the items of an array are. -/
def strings? : Node → Option (List String)
  | array items => items.mapM string?
  | _ => none

/-- The entries of a table. -/
def entries? : Node → Option (List (String × Node))
  | table _ entries => some entries
  | _ => none

/-- The name of an alternative: a string, or the key of a single entry that holds nothing. -/
def choice? : Node → Option String
  | string s => some s
  | table _ [(key, array [])] => some key
  | table _ [(key, table _ [])] => some key
  | _ => none

end Toml.Node

namespace Dialect

/-- The dialect of a name. -/
def ofName? : String → Option Dialect
  | "postgres" => some postgres
  | "oracle" => some oracle
  | "sqlserver" => some sqlServer
  | "mysql" => some mySql
  | "h2" => some h2
  | _ => none

end Dialect

/-- The style of a name. -/
def SortStyle.ofName? : String → Option SortStyle
  | "native" => some native
  | "case_when_nulls" => some caseWhenNulls
  | _ => none

/-- The treatment of a name. -/
def MissingOrderBy.ofName? : String → Option MissingOrderBy
  | "strict" => some strict
  | "warning" => some warning
  | "none" => some none
  | _ => Option.none

namespace Entity

/-- The entity with an alias and, where they are given, an identity field and fields. -/
def ofParts? (tableAlias idField fields : Option Toml.Node) : Option Entity := do
  let tableAlias ← tableAlias.bind (·.string?)
  let idField ← (idField.getD (.string "id")).string?
  let fields ← fields.elim (some none) fun node => node.strings?.map some
  some { tableAlias, idField, fields := fields.map fun names => .ofList names }

/-- The entity of a table, or of an array with the alias in front. A table is read as a whole, an
array only as far as it describes the entity. -/
def ofNode? : Toml.Node → Option Entity
  | .table origin entries =>
    if (Toml.Node.table origin entries).isReadable then
      ofParts? (entries.lookup "alias") (entries.lookup "id_field") (entries.lookup "fields")
    else none
  | .array items => ofParts? items[0]? items[1]? items[2]?
  | _ => none

end Entity

namespace Settings

/-- Settings with the value that an entry gives to its key. -/
def set? (settings : Settings) (key : String) (node : Toml.Node) : Option Settings :=
  match key with
  | "dialect" =>
    (node.choice?.bind Dialect.ofName?).map fun dialect => { settings with dialect }
  | "order_by_strategy" =>
    (node.choice?.bind SortStyle.ofName?).map fun style =>
      { settings with givenSortStyle := some style }
  | "escape_char" => node.char?.map fun escape => { settings with escape }
  | "missing_order_by" =>
    (node.choice?.bind MissingOrderBy.ofName?).map fun missingOrderBy =>
      { settings with missingOrderBy }
  | "word_search_exclusions" =>
    node.strings?.map fun names => { settings with wordSearchExclusions := .ofList names }
  | "boolean_constants" => do
    let constants ← (← node.entries?).mapM fun e => e.2.boolean?.map (e.1, ·)
    some { settings with constants := .ofList constants }
  | "log_sql_max_length" =>
    node.count?.map fun limit => { settings with logLimit := some limit }
  | "entities" => do
    let entities ← (← node.entries?).mapM fun e => (Entity.ofNode? e.2).map (e.1, ·)
    some { settings with catalog := ⟨.ofList entities⟩ }
  | _ => none

/-- The settings that a document describes. -/
def ofNode? (node : Toml.Node) : Option Settings :=
  node.entries?.bind fun entries => entries.foldlM (fun settings e => settings.set? e.1 e.2) {}

/-- Reads and checks settings. -/
def read (document : String) : Except SettingsFault Settings := do
  match (Toml.read? document.toList).bind ofNode? with
  | none => throw .unfitDocument
  | some settings =>
    settings.check
    return settings

/-- Reads and checks the settings in a file, given its path and, if there is one, its content. -/
def ofFile (path : String) (content : Option ByteArray) : Except SettingsFault Settings :=
  match content.bind String.fromUTF8? with
  | none => .error (.unreadableFile path)
  | some document =>
    match read document with
    | .ok settings => .ok settings
    | .error fault => .error (.inFile path fault)

end Settings

end QueryClauses
