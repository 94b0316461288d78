import QueryClauses.Sql.Like.Comparison

/-!
# Case-insensitive LIKE

Where LIKE tells upper from lower case, both sides of each comparison are put in upper case. The
statement is read from left to right; a comparison may start at the start of the text, or behind a
character that cannot belong to an operand itself. Comparisons whose operand or keyword lies inside
a literal or a comment are left alone.
-/

namespace QueryClauses.Sql.Like

open CharClass

/-- Whether an operand may start behind a character. -/
def isBoundary (c : Char) : Bool := !(isWordChar c || ['.', ':', '$', '\''].contains c)

/-- A statement with its comparisons folded, and how many there are. -/
structure Folded where
  text : Text
  count : Nat
deriving DecidableEq, Repr

/-- Folds the comparisons of a text that starts at offset `pos` of the surveyed statement;
`mayStart` tells whether an operand may start there. -/
def foldFrom (v : Survey) (mayStart : Bool) (pos : Nat) : Text → Folded
  | [] => ⟨[], 0⟩
  | c :: s =>
    let step (mayStart : Bool) : Folded :=
      let rest := foldFrom v mayStart (pos + c.utf8Size) s
      ⟨c :: rest.text, rest.count⟩
    match h : if mayStart then read? (c :: s) else none with
    | none => step (isBoundary c)
    | some (m, rest) =>
      if v.isOpaque pos || v.isOpaque (pos + Text.byteLength m.lead) then step false
      else
        have shorter : rest.length < (c :: s).length := by
          split at h
          · exact length_lt_of_read? h
          · simp at h
        let folded := foldFrom v false (pos + Text.byteLength m.text) rest
        ⟨m.folded ++ folded.text, folded.count + 1⟩
termination_by s => s.length
decreasing_by
  · simp
  · exact shorter

/-- Folds the comparisons of a statement. -/
def fold (s : Text) : Folded := foldFrom (survey s) true 0 s

example : (fold "a.b NOT   LIKE :p".toList).text = "UPPER(a.b) NOT LIKE UPPER(:p)".toList := by
  decide +kernel

end QueryClauses.Sql.Like
