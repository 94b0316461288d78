import QueryClauses.Event
import QueryClauses.Settings
import QueryClauses.Sql.Like.Folding
import QueryClauses.Sql.Positional

/-!
# Finished queries

A finished query is a text with named placeholders and the values of the names. It is sent to the
database with numbers in place of the names; where LIKE tells upper from lower case there, its text
is folded first.
-/

namespace QueryClauses

/-- A query that is ready to run. -/
structure Query where
  text : Text
  bindings : Bindings
  kind : QueryKind

namespace Query

/-- The query with numbers in place of names. -/
def positional (query : Query) : Except Failure Sql.Positional :=
  match Sql.positional query.bindings query.text with
  | .ok p => .ok p
  | .error name => .error (.query (.unbound (String.ofList name)))

/-- Binds the constants that a text refers to and that are not bound. -/
def bindConstants (constants : Std.TreeMap String Bool) (text : Text) (bindings : Bindings) :
    Bindings :=
  (Sql.placeholderNames text).foldl (fun bindings name =>
    let name := String.ofList name
    if bindings.contains name then bindings
    else
      match constants[name]? with
      | some b => bindings.insert name (.bool b)
      | none => bindings) bindings

end Query

namespace Dialect

/-- A statement as it is sent to the database, and the events of that. -/
def adapt (dialect : Dialect) (s : Text) : Text × List Event :=
  if dialect.foldsLikes then
    let folded := Sql.Like.fold s
    (folded.text, if folded.count = 0 then [] else [.likesFolded folded.count])
  else (s, [])

end Dialect

end QueryClauses
