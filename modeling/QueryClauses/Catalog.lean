import QueryClauses.Failure
import Std.Data.TreeMap
import Std.Data.TreeSet

/-!
# The catalog of entities

For each entity the alias that stands for its table, the field that identifies its rows, and, if
they are known, its fields. Every field that is written into a query is looked up here.
-/

namespace QueryClauses

/-- How an entity appears in query text. -/
structure Entity where
  tableAlias : String
  idField : String := "id"
  /-- The fields there are; without them, any field may be asked for. -/
  fields : Option (Std.TreeSet String) := none

/-- The entities by name. -/
structure Catalog where
  entities : Std.TreeMap String Entity := ∅

namespace Catalog

/-- Adds an entity, in place of one of that name. -/
def insert (catalog : Catalog) (name : String) (entity : Entity) : Catalog :=
  ⟨catalog.entities.insert name entity⟩

def size (catalog : Catalog) : Nat := catalog.entities.size

def isEmpty (catalog : Catalog) : Bool := catalog.entities.isEmpty

/-- The entity of a name. -/
def find (catalog : Catalog) (name : String) : Except Failure Entity :=
  match catalog.entities[name]? with
  | some entity => .ok entity
  | none => .error (.unmappedEntity name)

/-- The alias of an entity. -/
def tableAlias (catalog : Catalog) (name : String) : Except Failure String :=
  (catalog.find name).map (·.tableAlias)

/-- A field of an entity as it is written in query text: the field is checked, and has to be one of
the known fields if there are any. -/
def column (catalog : Catalog) (name field : String) : Except Failure String :=
  match catalog.find name with
  | .error failure => .error failure
  | .ok entity =>
    match Identifier.checkField field with
    | .error fault => .error (.invalidIdentifier fault)
    | .ok () =>
      if entity.fields.all (·.contains field) then .ok (Identifier.qualify entity.tableAlias field)
      else .error (.unknownField name field)

/-- The identity field of an entity as it is written in query text. -/
def idColumn (catalog : Catalog) (name : String) : Except Failure String :=
  (catalog.find name).map fun entity => Identifier.qualify entity.tableAlias entity.idField

/-- Fails unless the alias and the identity field of an entity are identifiers. -/
def checkEntity (name : String) (entity : Entity) : Except SettingsFault Unit :=
  match Identifier.checkAlias entity.tableAlias, Identifier.checkField entity.idField with
  | .error fault, _ => .error (.entity name fault)
  | .ok (), .error fault => .error (.entity name fault)
  | .ok (), .ok () => .ok ()

/-- Fails at the first entity, by name, with an alias or identity field that is no identifier. -/
def check (catalog : Catalog) : Except SettingsFault Unit :=
  catalog.entities.toList.forM fun p => checkEntity p.1 p.2

end Catalog

end QueryClauses
