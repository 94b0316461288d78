import QueryClauses.Toml.Quoted

/-!
# Keys and values of TOML

A key is bare or quoted, and dots join keys to a path. A value is a string, an unquoted scalar, an
array or an inline table. The items of arrays and inline tables may stand on lines of their own,
with comments, and the last one may have a comma behind it; so may the equals signs of an inline
table. Each reader returns what it has read and what follows.
-/

namespace QueryClauses.Toml

/-! ## Keys -/

/-- A character of a key without quotes. -/
def isBare (c : Char) : Bool := c.isAlphanum || c == '_' || c == '-'

/-- One key. -/
def key? (s : Text) : Option (String × Text) :=
  match string? s with
  | some p => some (String.ofList p.1, p.2)
  | none =>
    match s.takeWhile isBare with
    | [] => none
    | key => some (String.ofList key, s.dropWhile isBare)

/-- Keys joined by dots, and what follows them and the blanks behind them. -/
def keys? (s : Text) : Option (List String × Text) :=
  match key? s with
  | none => none
  | some (key, r) =>
    match r.dropWhile isBlank with
    | '.' :: t =>
      let next := t.dropWhile isBlank
      -- always so: at least the dot is gone
      if next.length < s.length then (keys? next).map fun p => (key :: p.1, p.2) else none
    | t => some ([key], t)
termination_by s.length

/-- A path has at most this many keys, and arrays and inline tables lie at most this deep in each
other. -/
def maxDepth : Nat := 80

/-- A path of keys, and what follows it and the blanks behind it. -/
def path? (s : Text) : Option (List String × Text) :=
  (keys? s).filter fun p => p.1.length ≤ maxDepth

/-! ## Items -/

/-- The text without the blanks, line ends and comments that it starts with. -/
def skipGap : Text → Text
  | [] => []
  | c :: s =>
    if isBlank c || c == '\n' then skipGap s
    else if c = '\r' ∧ s.head? = some '\n' then skipGap s
    else if c = '#' then skipGap (s.dropWhile isPlain)
    else c :: s
termination_by s => s.length
decreasing_by
  · simp
  · simp
  · exact Nat.lt_succ_of_le (List.dropWhile_suffix isPlain).length_le

/-- Items separated by commas, up to the closing bracket. -/
def items? {α : Type} (item? : Text → Option (α × Text)) (closing : Char) (s : Text) :
    Option (List α × Text) :=
  match skipGap s with
  | [] => none
  | c :: r =>
    if c = closing then some ([], r)
    else
      match item? (c :: r) with
      | none => none
      | some (item, t) =>
        match skipGap t with
        | [] => none
        | d :: u =>
          if d = closing then some ([item], u)
          -- always shorter: at least the comma is gone
          else if d = ',' ∧ u.length < s.length then
            (items? item? closing u).map fun p => (item :: p.1, p.2)
          else none
termination_by s.length

/-- A path, an equals sign and a value; `skip` drops what may stand on either side of the sign. -/
def keyValue? (skip : Text → Text) (value? : Text → Option (Node × Text)) (s : Text) :
    Option ((List String × Node) × Text) := do
  let (path, s) ← path? s
  let '=' :: s := skip s | none
  let (value, s) ← value? (skip s)
  some ((path, value), s)

/-! ## Values -/

/-- A character that no unquoted scalar holds. -/
def isDelimiter (c : Char) : Bool := ['=', ',', '[', ']', '{', '}', '#', '\r', '\n'].contains c

/-- A quote of either kind. -/
def isQuote (c : Char) : Bool := c == '"' || c == '\''

/-- The characters of an unquoted scalar. It ends in front of a delimiter, and in front of blanks
that a delimiter or a quote follows. -/
def scalarRun : Text → Text
  | [] => []
  | c :: s =>
    let next := if isBlank c then (s.dropWhile isBlank).head? else some c
    -- a quote that no blank is in front of is a character of the scalar
    if next.all fun d => isDelimiter d || (isBlank c && isQuote d) then [] else c :: scalarRun s

/-- An unquoted scalar. -/
def unquoted? (s : Text) : Option (Node × Text) :=
  let run := scalarRun s
  (scalar? run).map fun node => (node, s.drop run.length)

/-- A string of any form. -/
def stringValue? (s : Text) : Option (Node × Text) :=
  (anyString? s).map fun p => (.string (String.ofList p.1), p.2)

/-- The inline table with some entries, unless they disagree. -/
def inlineTable? (entries : List (List String × Node)) : Option Node :=
  (entries.foldlM (fun (node : Node) e => node.assign e.1 e.2) Node.empty).map Node.complete

/-- A value in which arrays and inline tables lie at most `depth` deep in each other. -/
def value? (depth : Nat) (s : Text) : Option (Node × Text) :=
  match depth, s with
  | depth + 1, '[' :: r => (items? (value? depth) ']' r).map fun p => (.array p.1, p.2)
  | depth + 1, '{' :: r =>
    (items? (keyValue? skipGap (value? depth)) '}' r).bind fun p =>
      (inlineTable? p.1).map fun node => (node, p.2)
  | _, s => if s.head?.any isQuote then stringValue? s else unquoted? s

end QueryClauses.Toml
