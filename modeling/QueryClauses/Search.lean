import QueryClauses.Condition

/-!
# Searches

A search asks for rows of which some field starts with one of the terms, or, if words are searched,
has a further word that does. Every field is compared with every term; the comparisons are joined by
OR.
-/

namespace QueryClauses

/-- Terms, and for each entity the fields to find them in. -/
structure Search where
  terms : List String := []
  fields : Std.TreeMap String (Std.TreeSet String) := ∅

namespace Search

/-- A search for the words of a text, in no fields yet. -/
def ofText (s : String) : Search where
  terms := (Text.pieces s.toList).map String.ofList

/-- Adds fields of an entity. -/
def addFields (search : Search) (entity : String) (fields : List String) : Search :=
  { search with
    fields := search.fields.alter entity fun old => some ((old.getD ∅).insertMany fields) }

/-- Whether there is no term to find or no field to find it in. -/
def isEmpty (search : Search) : Bool :=
  search.terms.isEmpty || search.fields.toList.all (·.2.isEmpty)

/-- The fields, entity by entity. -/
def fieldList (search : Search) : List (String × String) :=
  search.fields.toList.flatMap fun p => p.2.toList.map (p.1, ·)

/-- The columns of the fields, sorted, or the failure of the first field that has none. -/
def columns (catalog : Catalog) (search : Search) : Except Failure (Std.TreeSet String) :=
  (search.fieldList.mapM fun p => catalog.column p.1 p.2).map fun columns => .ofList columns

/-- The patterns for a term: texts that start with it and, if words are searched, texts with a
further word that does. -/
def patterns (escape : Char) (words : Bool) (term : String) : List Text :=
  Pattern.startsWith escape term.toList ::
    if words then [Pattern.wordStartsWith escape term.toList] else []

/-- Every column with every pattern, in the order in which they are written. -/
def alternatives (escape : Char) (words : Bool) (columns terms : List String) :
    List (String × Text) :=
  columns.flatMap fun column =>
    terms.flatMap fun term => (patterns escape words term).map (column, ·)

/-- The comparisons of columns with patterns, and the names that are left. -/
def comparisons (escape : Char) (supply : NameSupply) :
    List (String × Text) → List Condition × NameSupply
  | [] => ([], supply)
  | (column, pattern) :: rest =>
    let (name, supply) := supply.next
    let (conditions, supply) := comparisons escape supply rest
    (Condition.like escape column name pattern :: conditions, supply)

/-- The condition that some column matches some term, and the names that are left. -/
def condition (escape : Char) (words : Bool) (columns terms : List String) (supply : NameSupply) :
    Condition × NameSupply :=
  let (conditions, supply) := comparisons escape supply (alternatives escape words columns terms)
  ({ text := " OR ".intercalate (conditions.map (·.text))
     bindings := conditions.flatMap (·.bindings)
     columns := if terms.isEmpty then [] else columns }, supply)

end Search

end QueryClauses
