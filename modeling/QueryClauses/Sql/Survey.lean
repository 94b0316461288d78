import QueryClauses.Sql.Token

/-!
# Where the elements of a statement are

A survey lists the words, placeholders and opaque regions of a text with their byte offsets, and the
words with their depth of nesting in parentheses. It answers whether an offset lies inside a literal
or a comment.
-/

namespace QueryClauses.Sql

/-- A word, where it starts, and how many parentheses are open there. -/
structure Word where
  start : Nat
  text : Text
  depth : Int
deriving DecidableEq, Repr

/-- The offset just past a word. -/
def Word.stop (w : Word) : Nat := w.start + Text.byteLength w.text

/-- A placeholder from its colon to the end of its name. -/
structure Placeholder where
  start : Nat
  stop : Nat
  name : Text
deriving DecidableEq, Repr

/-- The byte range of a literal, a quoted identifier or a comment. -/
structure Span where
  start : Nat
  stop : Nat
deriving DecidableEq, Repr

/-- Whether an offset lies strictly inside the range: its first byte does not. -/
def Span.encloses (r : Span) (pos : Nat) : Bool := r.start < pos && pos < r.stop

/-- The words, placeholders and opaque regions of a text, each in order. -/
structure Survey where
  words : List Word := []
  placeholders : List Placeholder := []
  regions : List Span := []
deriving DecidableEq, Repr

/-- The survey of tokens that start at offset `pos`, with `depth` parentheses open. -/
def Survey.ofTokens (pos : Nat) (depth : Int) : List Token → Survey
  | [] => {}
  | t :: ts =>
    let stop := pos + Text.byteLength t.text
    let rest := ofTokens stop (t.kind.depthAfter depth) ts
    match t.kind with
    | .word => { rest with words := ⟨pos, t.text, depth⟩ :: rest.words }
    | .placeholder =>
      { rest with placeholders := ⟨pos, stop, t.text.tail⟩ :: rest.placeholders }
    | .quoted | .comment => { rest with regions := ⟨pos, stop⟩ :: rest.regions }
    | .opening | .closing | .other => rest

/-- The survey of a text. -/
def survey (s : Text) : Survey := .ofTokens 0 0 (lex s)

/-- Whether an offset lies strictly inside a literal, a quoted identifier or a comment. -/
def Survey.isOpaque (v : Survey) (pos : Nat) : Bool := v.regions.any (·.encloses pos)

/-- The names of the placeholders of a text, in order, repetitions included. -/
def placeholderNames (s : Text) : List Text := (survey s).placeholders.map (·.name)

end QueryClauses.Sql
