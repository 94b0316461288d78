import QueryClauses.Text.Basic

/-!
# Lexical elements of statement text

A statement is cut into words, placeholders, quoted regions, comments, parentheses and single other
characters. It is not parsed any further: that is enough to tell a keyword of the statement from
the same letters in a literal, and a placeholder from a type cast.

Main statement: `flatMap_text_lex`, the elements in order are the text, nothing is lost or added.
-/

namespace QueryClauses.Sql

open CharClass

/-- The kinds of lexical elements. -/
inductive Kind where
  /-- A run of identifier characters: a keyword, a name or a number. -/
  | word
  /-- A colon and a name. -/
  | placeholder
  /-- A string literal or a quoted identifier. -/
  | quoted
  | comment
  | opening
  | closing
  /-- A type cast sign, or any other single character. -/
  | other
deriving DecidableEq, Repr

/-- Quoted regions and comments: their text is no part of the statement's grammar. -/
def Kind.isOpaque : Kind → Bool
  | .quoted | .comment => true
  | _ => false

/-- The depth of nesting after an element that starts at depth `d`. -/
def Kind.depthAfter (d : Int) : Kind → Int
  | .opening => d + 1
  | .closing => d - 1
  | _ => d

/-- A lexical element and its text. -/
structure Token where
  kind : Kind
  text : Text
deriving DecidableEq, Repr

/-! ## One element

Each function takes what follows the opening characters of an element, and returns the rest of the
element and what follows it. -/

/-- A quoted region, up to its closing quote. A doubled quote does not close it, the end of the text
does. -/
def munchQuoted (quote : Char) : Text → Text × Text
  | [] => ([], [])
  | [c] => ([c], [])
  | c :: d :: s =>
    if c = quote then
      if d = quote then
        let (body, rest) := munchQuoted quote s
        (c :: d :: body, rest)
      else ([c], d :: s)
    else
      let (body, rest) := munchQuoted quote (d :: s)
      (c :: body, rest)

/-- A comment that runs to the end of its line, line feed included. -/
def munchLine : Text → Text × Text
  | [] => ([], [])
  | c :: s =>
    if c = '\n' then ([c], s)
    else
      let (body, rest) := munchLine s
      (c :: body, rest)

/-- A comment up to the first star that a slash follows. -/
def munchBlock : Text → Text × Text
  | [] => ([], [])
  | [c] => ([c], [])
  | c :: d :: s =>
    if c = '*' ∧ d = '/' then ([c, d], s)
    else
      let (body, rest) := munchBlock (d :: s)
      (c :: body, rest)

/-- What follows a colon: a second colon makes a type cast, a name makes a placeholder. -/
def munchColon : Text → Token × Text
  | [] => (⟨.other, [':']⟩, [])
  | c :: s =>
    if c = ':' then (⟨.other, [':', ':']⟩, s)
    else if isNameStart c then
      (⟨.placeholder, ':' :: (c :: s).takeWhile isNameChar⟩, (c :: s).dropWhile isNameChar)
    else (⟨.other, [':']⟩, c :: s)

/-- The element that starts with `c`, and what follows it. -/
def munch (c : Char) (s : Text) : Token × Text :=
  if c = '\'' ∨ c = '"' then
    let (body, rest) := munchQuoted c s
    (⟨.quoted, c :: body⟩, rest)
  else if c = '-' ∧ s.head? = some '-' then
    let (body, rest) := munchLine s.tail
    (⟨.comment, '-' :: '-' :: body⟩, rest)
  else if c = '/' ∧ s.head? = some '*' then
    let (body, rest) := munchBlock s.tail
    (⟨.comment, '/' :: '*' :: body⟩, rest)
  else if c = '(' then (⟨.opening, [c]⟩, s)
  else if c = ')' then (⟨.closing, [c]⟩, s)
  else if c = ':' then munchColon s
  else if isIdentChar c then
    (⟨.word, c :: s.takeWhile isIdentChar⟩, s.dropWhile isIdentChar)
  else (⟨.other, [c]⟩, s)

theorem munchQuoted_append (quote : Char) (s : Text) :
    (munchQuoted quote s).1 ++ (munchQuoted quote s).2 = s := by
  fun_induction munchQuoted quote s <;> simp_all

theorem munchLine_append (s : Text) : (munchLine s).1 ++ (munchLine s).2 = s := by
  fun_induction munchLine s <;> simp_all

theorem munchBlock_append (s : Text) : (munchBlock s).1 ++ (munchBlock s).2 = s := by
  fun_induction munchBlock s <;> simp_all

theorem munchColon_append (s : Text) : (munchColon s).1.text ++ (munchColon s).2 = ':' :: s := by
  fun_cases munchColon s <;> simp_all [List.takeWhile_append_dropWhile]

theorem munch_append (c : Char) (s : Text) : (munch c s).1.text ++ (munch c s).2 = c :: s := by
  unfold munch
  split
  · simp [munchQuoted_append]
  split
  · rename_i h
    obtain ⟨rfl, h⟩ := h
    obtain ⟨t, rfl⟩ := List.head?_eq_some_iff.1 h
    simp [munchLine_append]
  split
  · rename_i h
    obtain ⟨rfl, h⟩ := h
    obtain ⟨t, rfl⟩ := List.head?_eq_some_iff.1 h
    simp [munchBlock_append]
  split
  · rfl
  split
  · rfl
  split
  · rename_i h
    subst h
    exact munchColon_append s
  split
  · simp [List.takeWhile_append_dropWhile]
  · rfl

theorem munchColon_text_ne_nil (s : Text) : (munchColon s).1.text ≠ [] := by
  fun_cases munchColon s <;> simp

theorem munch_text_ne_nil (c : Char) (s : Text) : (munch c s).1.text ≠ [] := by
  unfold munch
  repeat' split
  all_goals first
    | exact munchColon_text_ne_nil s
    | exact List.cons_ne_nil _ _

theorem length_munch_le (c : Char) (s : Text) : (munch c s).2.length ≤ s.length := by
  have h := congrArg List.length (munch_append c s)
  have := List.length_pos_iff.2 (munch_text_ne_nil c s)
  simp only [List.length_append, List.length_cons] at h
  omega

/-! ## All elements -/

/-- The lexical elements of a text, in order. -/
def lex : Text → List Token
  | [] => []
  | c :: s => (munch c s).1 :: lex (munch c s).2
termination_by s => s.length
decreasing_by
  have := length_munch_le c s
  simp only [List.length_cons]
  omega

/-- The elements in order make up the text. -/
theorem flatMap_text_lex (s : Text) : (lex s).flatMap Token.text = s := by
  fun_induction lex s with
  | case1 => rfl
  | case2 c s ih => rw [List.flatMap_cons, ih, munch_append]

end QueryClauses.Sql
