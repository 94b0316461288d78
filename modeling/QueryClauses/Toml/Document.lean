import QueryClauses.Toml.Value

/-!
# TOML documents

A document is a sequence of statements, each on a line of its own unless a value runs over several:
entries and headers. A header says to which table the entries behind it belong; entries in front of
the first header belong to the document itself. `read?` reads a document to its tree.
-/

namespace QueryClauses.Toml

/-- What stands on a line. -/
inductive Statement where
  | entry (path : List String) (value : Node)
  | header (path : List String)
  | doubleHeader (path : List String)
  | blank

/-- A statement, and what follows it. -/
def statement? : Text → Option (Statement × Text)
  | '[' :: '[' :: s => do
    let (path, s) ← path? (s.dropWhile isBlank)
    let ']' :: ']' :: s := s | none
    some (.doubleHeader path, s)
  | '[' :: s => do
    let (path, s) ← path? (s.dropWhile isBlank)
    let ']' :: s := s | none
    some (.header path, s)
  | s =>
    if s.head?.all (['#', '\n', '\r'].contains ·) then some (.blank, s)
    else
      (keyValue? (·.dropWhile isBlank) (value? maxDepth) s).map fun p => (.entry p.1.1 p.1.2, p.2)

/-- What follows the rest of a line that holds at most a comment. -/
def behindLine? (s : Text) : Option Text :=
  let s := s.dropWhile isBlank
  match if s.head? = some '#' then s.dropWhile isPlain else s with
  | [] => some []
  | s => behindLineEnd? s

/-- The statements of a text, line by line. -/
def statements? (s : Text) : Option (List Statement) :=
  if s.isEmpty then some []
  else
    match (statement? (s.dropWhile isBlank)).bind fun p => (behindLine? p.2).map (p.1, ·) with
    | none => none
    | some (statement, rest) =>
      -- always so: a line that is not the end of the text has at least one character
      if rest.length < s.length then (statements? rest).map (statement :: ·) else none
termination_by s.length

/-- The tree of statements, from a tree on; `current` is the path that the last header names. -/
def treeFrom (current : List String) (node : Node) : List Statement → Option Node
  | [] => some node
  | .blank :: rest => treeFrom current node rest
  | .header path :: rest => (node.openTable path).bind (treeFrom path · rest)
  | .doubleHeader path :: rest => (node.addTable path).bind (treeFrom path · rest)
  | .entry path value :: rest =>
    (node.modifyAt false (·.assign path value) current).bind (treeFrom current · rest)

/-- The tree of a document, unless it is none. A byte order mark in front is no part of it. -/
def read? (s : Text) : Option Node :=
  let s := if s.head? = some '\uFEFF' then s.tail else s
  (statements? s).bind (treeFrom [] Node.empty)

end QueryClauses.Toml
