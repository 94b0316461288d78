import QueryClauses.Sql.Survey

/-!
# The clauses of a statement

A word is at top level when no parenthesis is open before it. Top-level words tell whether a
statement has a WHERE or an ORDER BY, and where the clauses begin that a condition or a sort key has
to precede. A statement is cut there into two texts, and a new clause is spliced in between.
-/

namespace QueryClauses.Sql

/-- Equality of a word and a keyword up to case. -/
def isKeyword (keyword : String) (w : Text) : Bool := Text.sameWord w keyword.toList

/-- Whether a token that starts with `depth` parentheses open is a word at top level. -/
def Token.isTopWord (depth : Int) (t : Token) : Bool := t.kind == .word && depth == 0

/-- The words at top level among tokens that start with `depth` parentheses open. -/
def topWordsFrom (depth : Int) : List Token → List Text
  | [] => []
  | t :: ts =>
    let rest := topWordsFrom (t.kind.depthAfter depth) ts
    if t.isTopWord depth then t.text :: rest else rest

/-- The first word at top level among tokens that start with `depth` parentheses open. -/
def topWordFrom? (depth : Int) : List Token → Option Text
  | [] => none
  | t :: ts =>
    if t.isTopWord depth then some t.text else topWordFrom? (t.kind.depthAfter depth) ts

theorem topWordFrom?_eq_head? (depth : Int) (ts : List Token) :
    topWordFrom? depth ts = (topWordsFrom depth ts).head? := by
  induction ts generalizing depth with
  | nil => rfl
  | cons t ts ih =>
    simp only [topWordFrom?, topWordsFrom]
    split
    · rfl
    · exact ih _

/-- The words of a text at top level, in order. -/
def topWords (s : Text) : List Text := topWordsFrom 0 (lex s)

/-- Whether a keyword is among the top-level words. -/
def hasKeyword (keyword : String) (s : Text) : Bool := (topWords s).any (isKeyword keyword)

/-- Whether several SELECTs are combined at top level. -/
def isCompound (s : Text) : Bool :=
  (topWords s).any fun w =>
    ["UNION", "INTERSECT", "EXCEPT", "MINUS"].any (isKeyword · w)

/-- Whether ORDER and BY stand next to each other among the words. -/
def orderByAmong : List Text → Bool
  | w :: v :: ws => (isKeyword "ORDER" w && isKeyword "BY" v) || orderByAmong (v :: ws)
  | _ => false

/-- Whether the statement has an ORDER BY at top level. -/
def hasOrderBy (s : Text) : Bool := orderByAmong (topWords s)

/-! ## Cutting a statement -/

/-- Whether a top-level word, followed by the top-level word `next`, begins a clause that limits the
rows of the result: LIMIT, OFFSET, FETCH or FOR UPDATE. Sort keys end before it. -/
def opensPaging (w : Text) (next : Option Text) : Bool :=
  ["LIMIT", "OFFSET", "FETCH"].any (isKeyword · w) ||
    (isKeyword "FOR" w && next.any (isKeyword "UPDATE"))

/-- Whether a top-level word begins a clause that a condition has to precede: GROUP BY, HAVING,
ORDER BY, or one that limits the rows. -/
def opensTail (w : Text) (next : Option Text) : Bool :=
  ((isKeyword "GROUP" w || isKeyword "ORDER" w) && next.any (isKeyword "BY")) ||
    isKeyword "HAVING" w || opensPaging w next

/-- Cuts tokens before the first top-level word that opens a clause. -/
def cutBefore (opens : Text → Option Text → Bool) (depth : Int) :
    List Token → List Token × List Token
  | [] => ([], [])
  | t :: ts =>
    let inner := t.kind.depthAfter depth
    if t.isTopWord depth && opens t.text (topWordFrom? inner ts) then ([], t :: ts)
    else
      let (before, rest) := cutBefore opens inner ts
      (t :: before, rest)

/-- Cuts tokens after the first top-level word that is the keyword. -/
def cutAfter (keyword : String) (depth : Int) : List Token → Option (List Token × List Token)
  | [] => none
  | t :: ts =>
    if t.isTopWord depth && isKeyword keyword t.text then some ([t], ts)
    else (cutAfter keyword (t.kind.depthAfter depth) ts).map fun p => (t :: p.1, p.2)

/-- The text of tokens in order. -/
def textOf (ts : List Token) : Text := ts.flatMap Token.text

/-- Cuts a statement where conditions end: what precedes the trailing clauses, and those. -/
def cutTail (s : Text) : Text × Text :=
  let (before, rest) := cutBefore opensTail 0 (lex s)
  (textOf before, textOf rest)

/-- Cuts a statement where sort keys end: what precedes the limits on rows, and those. -/
def cutPaging (s : Text) : Text × Text :=
  let (before, rest) := cutBefore opensPaging 0 (lex s)
  (textOf before, textOf rest)

/-- Cuts a text just past the first top-level occurrence of a keyword. -/
def cutKeyword (keyword : String) (s : Text) : Option (Text × Text) :=
  (cutAfter keyword 0 (lex s)).map fun p => (textOf p.1, textOf p.2)

theorem cutBefore_append (opens : Text → Option Text → Bool) (depth : Int) (ts : List Token) :
    (cutBefore opens depth ts).1 ++ (cutBefore opens depth ts).2 = ts := by
  induction ts generalizing depth with
  | nil => rfl
  | cons t ts ih =>
    simp only [cutBefore]
    split
    · rfl
    · simp [ih]

theorem cutAfter_append {keyword : String} {depth : Int} {ts : List Token}
    {p : List Token × List Token} (h : cutAfter keyword depth ts = some p) : p.1 ++ p.2 = ts := by
  induction ts generalizing depth p with
  | nil => simp [cutAfter] at h
  | cons t ts ih =>
    simp only [cutAfter] at h
    split at h
    · cases h
      rfl
    · obtain ⟨q, hq, rfl⟩ := Option.map_eq_some_iff.1 h
      simp [ih hq]

/-- The two parts of a statement cut for a condition make up the statement. -/
theorem cutTail_append (s : Text) : (cutTail s).1 ++ (cutTail s).2 = s := by
  simp only [cutTail, textOf]
  rw [← List.flatMap_append, cutBefore_append, flatMap_text_lex]

/-- The two parts of a statement cut for sort keys make up the statement. -/
theorem cutPaging_append (s : Text) : (cutPaging s).1 ++ (cutPaging s).2 = s := by
  simp only [cutPaging, textOf]
  rw [← List.flatMap_append, cutBefore_append, flatMap_text_lex]

/-- The two parts of a text cut at a keyword make up the text. -/
theorem cutKeyword_append {keyword : String} {s : Text} {p : Text × Text}
    (h : cutKeyword keyword s = some p) : p.1 ++ p.2 = s := by
  obtain ⟨q, hq, rfl⟩ := Option.map_eq_some_iff.1 h
  simp only [textOf]
  rw [← List.flatMap_append, cutAfter_append hq, flatMap_text_lex]

/-! ## Joining texts -/

/-- A text and what follows it, separated by one space; nothing if only white space follows. -/
def followedBy (s tail : Text) : Text :=
  match Text.trimStart tail with
  | [] => s
  | rest => s ++ ' ' :: rest

/-- Puts a clause between two texts, one space on either side in place of the white space there. -/
def splice (cut : Text × Text) (clause : Text) : Text :=
  followedBy (Text.trimEnd cut.1 ++ ' ' :: clause) cut.2

end QueryClauses.Sql
