/-!
# The tree of a TOML document

A document is a tree of tables, arrays and scalars. How a table came about decides whether a later
line may add to it: a table that a header names may be added to by its header alone, one that only
lies on the way to another may still get a header, one made by a dotted key only more dotted keys,
and an inline table is complete.
-/

namespace QueryClauses.Toml

/-- How a table came about. -/
inductive Origin where
  /-- Named by a header, or the document itself. -/
  | header
  /-- On the way to a table that a header names. -/
  | implied
  /-- On the way of a dotted key. -/
  | dotted
  /-- Written between braces. -/
  | inline
deriving DecidableEq, Repr

/-- A value of a document. -/
inductive Node where
  | string (s : String)
  | integer (n : Int)
  | boolean (b : Bool)
  /-- A number that is written with a fraction or an exponent. -/
  | float
  | dateTime
  /-- What has the outline of a number and no value. -/
  | unreadable
  | array (items : List Node)
  /-- Tables that headers in double brackets add, the last one latest. -/
  | tables (items : List Node)
  | table (origin : Origin) (entries : List (String × Node))
deriving Repr

/-- The entry of a key. -/
def find? (key : String) (entries : List (String × Node)) : Option Node := entries.lookup key

/-- Puts an entry in the place of the one of its key, or at the end. -/
def put (key : String) (node : Node) : List (String × Node) → List (String × Node)
  | [] => [(key, node)]
  | entry :: entries =>
    if entry.1 = key then (key, node) :: entries else entry :: put key node entries

namespace Node

/-! ## Reading -/

mutual

/-- Whether all numbers of a node have a value. -/
def isReadable : Node → Bool
  | unreadable => false
  | array items | tables items => areReadable items
  | table _ entries => entriesReadable entries
  | _ => true

/-- Whether all numbers of some nodes have a value. -/
def areReadable : List Node → Bool
  | [] => true
  | node :: nodes => node.isReadable && areReadable nodes

/-- Whether all numbers of a table's entries have a value. -/
def entriesReadable : List (String × Node) → Bool
  | [] => true
  | (_, node) :: entries => node.isReadable && entriesReadable entries

end

/-! ## Building -/

/-- The document without lines. -/
def empty : Node := table .header []

/-- Whether a path may lead through a table: a dotted key stays clear of tables that headers name,
and nothing leads through an inline table. -/
def admits (byDottedKey : Bool) : Origin → Bool
  | .header => !byDottedKey
  | .implied | .dotted => true
  | .inline => false

/-- Changes the table at the end of a path, from a table on; tables that are not there are made on
the way. Of tables in double brackets, the path leads through the last one. -/
def modifyAt (byDottedKey : Bool) (f : Node → Option Node) : List String → Node → Option Node
  | [], node => f node
  | key :: path, table origin entries =>
    let replaced (node : Option Node) := node.map fun n => table origin (put key n entries)
    match find? key entries with
    | none =>
      let made := table (if byDottedKey then .dotted else .implied) []
      replaced (modifyAt byDottedKey f path made)
    | some (table inner innerEntries) =>
      if admits byDottedKey inner then
        replaced (modifyAt byDottedKey f path (table inner innerEntries))
      else none
    | some (tables items) =>
      match items.getLast? with
      | none => none
      | some last =>
        replaced ((modifyAt byDottedKey f path last).map fun n => tables (items.dropLast ++ [n]))
    | some _ => none
  | _ :: _, _ => none

/-- Adds an entry to a table that has none of that key. A dotted key adds to tables of dotted keys
only, and a plain key to the others only. -/
def addEntry (byDottedKey : Bool) (key : String) (value : Node) : Node → Option Node
  | table origin entries =>
    if (origin == .dotted) == byDottedKey && (find? key entries).isNone then
      some (table origin (put key value entries))
    else none
  | _ => none

/-- Adds the value of a key, which may be dotted, to a table. -/
def assign (node : Node) (path : List String) (value : Node) : Option Node :=
  match path.getLast? with
  | none => none
  | some key =>
    let dotted := 1 < path.length
    node.modifyAt true (addEntry dotted key value) path.dropLast

/-- Names a table by a header: a new one, or one that only lay on the way to another. -/
def openTable (path : List String) (node : Node) : Option Node :=
  match path.getLast? with
  | none => none
  | some key =>
    node.modifyAt false (fun
      | table origin entries =>
        match find? key entries with
        | none => some (table origin (put key (table .header []) entries))
        | some (table .implied inner) =>
          some (table origin (put key (table .header inner) entries))
        | some _ => none
      | _ => none) path.dropLast

/-- Adds a table by a header in double brackets. -/
def addTable (path : List String) (node : Node) : Option Node :=
  match path.getLast? with
  | none => none
  | some key =>
    node.modifyAt false (fun
      | table origin entries =>
        match find? key entries with
        | none => some (table origin (put key (tables [table .header []]) entries))
        | some (tables items) =>
          some (table origin (put key (tables (items ++ [table .header []])) entries))
        | some _ => none
      | _ => none) path.dropLast

/-- Marks a table as complete. -/
def complete : Node → Node
  | table _ entries => table .inline entries
  | node => node

end Node

end QueryClauses.Toml
