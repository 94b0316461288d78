import QueryClauses.Catalog
import QueryClauses.Pattern
import QueryClauses.SortKey

/-!
# Settings

What queries are made with: the database, the catalog of entities, the escape character of patterns,
and what happens to queries without an ORDER BY. `Settings.check` says whether settings are usable.
-/

namespace QueryClauses

/-- A database. -/
inductive Dialect where
  | postgres | oracle | sqlServer | mySql | h2
deriving DecidableEq, Repr

namespace Dialect

/-- How the database is told where rows without a value come. -/
def sortStyle : Dialect → SortStyle
  | postgres | oracle | h2 => .native
  | sqlServer | mySql => .caseWhenNulls

/-- Whether LIKE tells upper from lower case, so that statements are folded. -/
def foldsLikes (d : Dialect) : Bool := d == postgres

end Dialect

/-- What happens to a query without an ORDER BY. -/
inductive MissingOrderBy where
  | strict | warning | none
deriving DecidableEq, Repr

/-- What queries are made with. -/
structure Settings where
  dialect : Dialect := .postgres
  /-- A style in place of the one of the database. -/
  givenSortStyle : Option SortStyle := none
  escape : Char := '§'
  missingOrderBy : MissingOrderBy := .none
  /-- The entities over which words are never searched. -/
  wordSearchExclusions : Std.TreeSet String := ∅
  /-- The constants that native queries may refer to by name. -/
  constants : Std.TreeMap String Bool := .ofList [("falseValue", false), ("trueValue", true)]
  /-- How many bytes of a query events and failures show; without it, all. -/
  logLimit : Option Nat := some 200
  catalog : Catalog := {}

namespace Settings

/-- How sort keys are written. -/
def sortStyle (settings : Settings) : SortStyle :=
  settings.givenSortStyle.getD settings.dialect.sortStyle

/-- Whether a query over an entity searches words when that is asked for. -/
def searchesWords (settings : Settings) (entity : String) (requested : Bool) : Bool :=
  requested && !settings.wordSearchExclusions.contains entity

/-- Fails if patterns cannot be written with the escape character. -/
def checkEscape (c : Char) : Except SettingsFault Unit :=
  if Pattern.isUsableEscape c then .ok () else .error (.escapeChar c)

/-- Fails if the name of a constant is no identifier. -/
def checkConstant (name : String) : Except SettingsFault Unit :=
  match Identifier.checkAlias name with
  | .ok () => .ok ()
  | .error fault => .error (.constantName fault)

/-- Fails at the first fault: of the escape character, of the constants by name, of the catalog. -/
def check (settings : Settings) : Except SettingsFault Unit := do
  checkEscape settings.escape
  settings.constants.keys.forM checkConstant
  settings.catalog.check

/-- A query as events and failures show it. -/
def shown (settings : Settings) (text : Text) : String :=
  String.ofList (text.abbreviate settings.logLimit)

end Settings

end QueryClauses
