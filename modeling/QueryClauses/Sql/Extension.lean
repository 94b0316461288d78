import QueryClauses.Sql.Clause

/-!
# Adding to the clauses of a statement

A condition is added to the WHERE clause, sort keys to the ORDER BY clause, at top level and in
front of the clauses that follow. A clause that is not there yet is made.
-/

namespace QueryClauses.Sql

/-- A predicate, which may be missing, and a further condition: a predicate with OR at top level is
put in parentheses. -/
def conjoin (predicate condition : Text) : Text :=
  if predicate.isEmpty then condition
  else if hasKeyword "OR" predicate then '(' :: predicate ++ ") AND ".toList ++ condition
  else predicate ++ " AND ".toList ++ condition

/-- The statement with a further condition. -/
def addCondition (condition s : Text) : Text :=
  let (head, tail) := cutTail s
  match cutKeyword "WHERE" head with
  | some (front, predicate) => splice (front, tail) (conjoin (Text.trim predicate) condition)
  | none => splice (head, tail) ("WHERE ".toList ++ condition)

/-- The statement with further sort keys. -/
def addSortKeys (keys s : Text) : Text :=
  let (head, tail) := cutPaging s
  if hasOrderBy head then followedBy (Text.trimEnd head ++ ", ".toList ++ keys) tail
  else splice (head, tail) ("ORDER BY ".toList ++ keys)

end QueryClauses.Sql
