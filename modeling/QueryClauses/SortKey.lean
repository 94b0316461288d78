/-!
# Sort keys

A sort key orders rows by a field, up or down, and may say whether rows without a value come first
or last. Databases that have no words for the latter are given a key of their own in front, which
tells rows without a value from the others.
-/

namespace QueryClauses

/-- Where rows without a value come. -/
inductive NullPlace where
  | first
  | last
deriving DecidableEq, Repr

/-- The direction of a sort key. -/
inductive Direction where
  | asc | desc | ascNullsFirst | ascNullsLast | descNullsFirst | descNullsLast
deriving DecidableEq, Repr

namespace Direction

def isDescending : Direction → Bool
  | desc | descNullsFirst | descNullsLast => true
  | asc | ascNullsFirst | ascNullsLast => false

/-- The keyword of the direction. -/
def keyword (d : Direction) : String := if d.isDescending then "DESC" else "ASC"

/-- Where rows without a value are to come, if it is said. -/
def nulls? : Direction → Option NullPlace
  | asc | desc => none
  | ascNullsFirst | descNullsFirst => some .first
  | ascNullsLast | descNullsLast => some .last

end Direction

/-- A field to sort by. -/
structure SortKey where
  entity : String
  field : String
  direction : Direction
deriving DecidableEq, Repr

/-- How a sort key says where rows without a value come. -/
inductive SortStyle where
  /-- By the words NULLS FIRST and NULLS LAST. -/
  | native
  /-- By a key in front that is 0 for rows without a value and 1 for the others. -/
  | caseWhenNulls
deriving DecidableEq, Repr

namespace SortStyle

/-- The words for a place of rows without a value. -/
def nativeWords : Option NullPlace → String
  | none => ""
  | some .first => " NULLS FIRST"
  | some .last => " NULLS LAST"

/-- The key in front of a column's own. -/
def caseKey (column : String) : Option NullPlace → String
  | none => ""
  | some place =>
    "CASE WHEN " ++ column ++ " IS NULL THEN 0 ELSE 1 END " ++
      (match place with
        | .first => "ASC"
        | .last => "DESC") ++ ", "

/-- A sort key as text. -/
def write (style : SortStyle) (column : String) (direction : Direction) : String :=
  match style with
  | native => column ++ " " ++ direction.keyword ++ nativeWords direction.nulls?
  | caseWhenNulls => caseKey column direction.nulls? ++ column ++ " " ++ direction.keyword

end SortStyle

end QueryClauses
