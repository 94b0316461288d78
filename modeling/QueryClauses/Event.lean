/-!
# Events

What is worth a line in a log while queries are made.
-/

namespace QueryClauses

/-- How a query is run. -/
inductive QueryKind where
  /-- As SQL of the database; constants are bound by name. -/
  | native
  /-- As a query over entities. -/
  | object
deriving DecidableEq, Repr

/-- The name of a kind. -/
def QueryKind.name : QueryKind → String
  | native => "native"
  | object => "object"

/-- How much an event matters. -/
inductive Level where
  | trace | debug | warn
deriving DecidableEq, Repr

/-- Something worth a line in a log. Queries may be abbreviated. -/
inductive Event where
  /-- A query of some kind was finished, with a number of values bound. -/
  | built (kind : QueryKind) (bound : Nat) (query : String)
  /-- A query over an entity has no ORDER BY. -/
  | missingOrderBy (entity query : String)
  /-- Comparisons of a statement were made to disregard case. -/
  | likesFolded (count : Nat)
deriving DecidableEq, Repr

namespace Event

def level : Event → Level
  | built .. => .debug
  | missingOrderBy .. => .warn
  | likesFolded _ => .trace

def message : Event → String
  | built .. => "query built"
  | missingOrderBy .. => "query has no ORDER BY clause"
  | likesFolded _ => "case-insensitive LIKE rewrite"

end Event

end QueryClauses
