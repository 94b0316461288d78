import QueryClauses.Sql.Survey

/-!
# LIKE comparisons in statement text

A LIKE comparison is read where an operand may start: a literal, a dotted name or a placeholder, or
several of these joined by `||`; then LIKE, or NOT LIKE; then a literal or a placeholder as pattern.
Anything else, a function call for one, is not read as a comparison.

Each reader returns what it took and what is left. Main statement: `read_append`, the parts of a
comparison and what is left make up the text.
-/

namespace QueryClauses.Sql.Like

open CharClass

/-! ## Operands -/

/-- A literal from behind its opening quote. A doubled quote belongs to the literal; if no single
quote closes it, the first of the last doubled ones does. -/
def literalBody : Text → Option (Text × Text)
  | [] => none
  | [c] => if c = '\'' then some ([c], []) else none
  | c :: d :: s =>
    if c = '\'' then
      if d = '\'' then
        match literalBody s with
        | some (body, rest) => some (c :: d :: body, rest)
        | none => some ([c], d :: s)
      else some ([c], d :: s)
    else (literalBody (d :: s)).map fun p => (c :: p.1, p.2)

/-- What continues a name: word characters, dollar signs, and points that a letter or an underscore
follows. -/
def nameBody : Text → Text × Text
  | [] => ([], [])
  | [c] => if isWordChar c || c == '$' then ([c], []) else ([], [c])
  | c :: d :: s =>
    if isWordChar c || c == '$' then
      let (body, rest) := nameBody (d :: s)
      (c :: body, rest)
    else if c = '.' && isNameStart d then
      let (body, rest) := nameBody s
      (c :: d :: body, rest)
    else ([], c :: d :: s)

/-- A placeholder: a colon and a name, a dollar sign and a number, or a question mark. -/
def placeholder? : Text → Option (Text × Text)
  | [] => none
  | c :: s =>
    if c = '?' then some ([c], s)
    else if c = ':' ∧ s.head?.any isNameStart then
      some (c :: s.takeWhile isWordChar, s.dropWhile isWordChar)
    else if c = '$' ∧ s.head?.any isDigit then
      some (c :: s.takeWhile isDigit, s.dropWhile isDigit)
    else none

/-- A pattern: a literal or a placeholder. -/
def pattern? : Text → Option (Text × Text)
  | [] => none
  | c :: s =>
    if c = '\'' then (literalBody s).map fun p => (c :: p.1, p.2) else placeholder? (c :: s)

/-- An operand: a literal, a dotted name or a placeholder. -/
def operand? : Text → Option (Text × Text)
  | [] => none
  | c :: s =>
    if isNameStart c then
      let (body, rest) := nameBody s
      some (c :: body, rest)
    else pattern? (c :: s)

theorem literalBody_append {s : Text} {p : Text × Text} (h : literalBody s = some p) :
    p.1 ++ p.2 = s := by
  fun_induction literalBody s generalizing p with
  | case1 => simp at h
  | case2 => cases h; rfl
  | case3 => simp at h
  | case4 s body rest hbody ih => cases h; simp [ih hbody]
  | case5 => cases h; rfl
  | case6 => cases h; rfl
  | case7 c d s hc ih =>
    obtain ⟨q, hq, rfl⟩ := Option.map_eq_some_iff.1 h
    simp [ih hq]

theorem nameBody_append (s : Text) : (nameBody s).1 ++ (nameBody s).2 = s := by
  fun_induction nameBody s <;> simp_all

theorem placeholder?_append {s : Text} {p : Text × Text} (h : placeholder? s = some p) :
    p.1 ++ p.2 = s ∧ p.1 ≠ [] := by
  cases s with
  | nil => simp [placeholder?] at h
  | cons c s =>
    simp only [placeholder?] at h
    split at h
    · cases h
      simp
    split at h
    · cases h
      simp
    split at h
    · cases h
      simp
    · simp at h

theorem pattern?_append {s : Text} {p : Text × Text} (h : pattern? s = some p) :
    p.1 ++ p.2 = s ∧ p.1 ≠ [] := by
  cases s with
  | nil => simp [pattern?] at h
  | cons c s =>
    simp only [pattern?] at h
    split at h
    · obtain ⟨q, hq, rfl⟩ := Option.map_eq_some_iff.1 h
      simp [literalBody_append hq]
    · exact placeholder?_append h

theorem operand?_append {s : Text} {p : Text × Text} (h : operand? s = some p) :
    p.1 ++ p.2 = s ∧ p.1 ≠ [] := by
  cases s with
  | nil => simp [operand?] at h
  | cons c s =>
    simp only [operand?] at h
    split at h
    · cases h
      simp [nameBody_append]
    · exact pattern?_append h

/-- White space at the start. -/
def gap (s : Text) : Text × Text := (s.takeWhile isSpace, s.dropWhile isSpace)

@[simp] theorem gap_append (s : Text) : (gap s).1 ++ (gap s).2 = s :=
  List.takeWhile_append_dropWhile

/-- One more operand behind a concatenation sign. -/
def joined? (s : Text) : Option (Text × Text) :=
  match (gap s).2 with
  | '|' :: '|' :: r =>
    (operand? (gap r).2).map fun p => ((gap s).1 ++ '|' :: '|' :: (gap r).1 ++ p.1, p.2)
  | _ => none

theorem joined?_append {s : Text} {p : Text × Text} (h : joined? s = some p) :
    p.1 ++ p.2 = s ∧ p.1 ≠ [] := by
  unfold joined? at h
  split at h
  · rename_i r hr
    obtain ⟨q, hq, rfl⟩ := Option.map_eq_some_iff.1 h
    have hs := gap_append s
    rw [hr] at hs
    simp [(operand?_append hq).1, hs]
  · simp at h

theorem length_lt_of_joined? {s : Text} {p : Text × Text} (h : joined? s = some p) :
    p.2.length < s.length := by
  obtain ⟨happ, hne⟩ := joined?_append h
  have := congrArg List.length happ
  have := List.length_pos_iff.2 hne
  simp only [List.length_append] at *
  omega

/-- All further operands of a concatenation. -/
def joinedAll (s : Text) : Text × Text :=
  match _h : joined? s with
  | none => ([], s)
  | some p => (p.1 ++ (joinedAll p.2).1, (joinedAll p.2).2)
termination_by s.length
decreasing_by all_goals exact length_lt_of_joined? _h

theorem joinedAll_append (s : Text) : (joinedAll s).1 ++ (joinedAll s).2 = s := by
  fun_induction joinedAll s with
  | case1 => simp
  | case2 s p h ih => rw [List.append_assoc, ih, (joined?_append h).1]

/-! ## Keywords -/

/-- Whether a character is a keyword's letter in either case; the Kelvin sign is a form of K. -/
def isLetter (letter c : Char) : Bool := c.toLower == letter || (letter == 'k' && c == '\u212a')

/-- A keyword at the start, given in lower case. -/
def keyword? : Text → Text → Option (Text × Text)
  | [], s => some ([], s)
  | _ :: _, [] => none
  | k :: ks, c :: s =>
    if isLetter k c then (keyword? ks s).map fun p => (c :: p.1, p.2) else none

/-- NOT and the white space behind it, or nothing. -/
def negation (s : Text) : Text × Text × Text :=
  match keyword? "not".toList s with
  | none => ([], [], s)
  | some (word, r) => if (gap r).1.isEmpty then ([], [], s) else (word, (gap r).1, (gap r).2)

theorem keyword?_append {ks s : Text} {p : Text × Text} (h : keyword? ks s = some p) :
    p.1 ++ p.2 = s := by
  fun_induction keyword? ks s generalizing p with
  | case1 => cases h; rfl
  | case2 => simp at h
  | case3 k ks c s hc ih =>
    obtain ⟨q, hq, rfl⟩ := Option.map_eq_some_iff.1 h
    simp [ih hq]
  | case4 => simp at h

theorem negation_append (s : Text) :
    (negation s).1 ++ ((negation s).2.1 ++ (negation s).2.2) = s := by
  unfold negation
  split
  · simp
  · rename_i word r h
    split
    · simp
    · simp [keyword?_append h]

/-! ## Comparisons -/

/-- The parts of a LIKE comparison, in order. -/
structure Comparison where
  operand : Text
  /-- White space behind the operand. -/
  gap : Text
  /-- NOT, or nothing. -/
  negation : Text
  /-- White space behind NOT, or nothing. -/
  negationGap : Text
  keyword : Text
  /-- White space behind LIKE. -/
  keywordGap : Text
  pattern : Text
deriving DecidableEq, Repr

namespace Comparison

/-- What precedes LIKE. -/
def lead (m : Comparison) : Text := m.operand ++ (m.gap ++ (m.negation ++ m.negationGap))

/-- The text of the comparison. -/
def text (m : Comparison) : Text := m.lead ++ (m.keyword ++ (m.keywordGap ++ m.pattern))

/-- The comparison with both sides in upper case, and single spaces around the keywords. -/
def folded (m : Comparison) : Text :=
  "UPPER(".toList ++ m.operand ++ ") ".toList ++
    (if m.negation.isEmpty then [] else m.negation ++ [' ']) ++ m.keyword ++
    " UPPER(".toList ++ m.pattern ++ [')']

end Comparison

/-- The comparison at the start of a text, if one is there, and what follows it. -/
def read? (s : Text) : Option (Comparison × Text) :=
  match operand? s with
  | none => none
  | some (first, behindFirst) =>
    let (more, behindOperand) := joinedAll behindFirst
    let (space, behindSpace) := gap behindOperand
    let (negation, negationGap, behindNegation) := negation behindSpace
    match keyword? "like".toList behindNegation with
    | none => none
    | some (keyword, behindKeyword) =>
      let (keywordGap, behindGap) := gap behindKeyword
      if space.isEmpty || keywordGap.isEmpty then none
      else
        (pattern? behindGap).map fun (pattern, rest) =>
          ({ operand := first ++ more, gap := space, negation, negationGap, keyword, keywordGap,
             pattern }, rest)

/-- The parts of a comparison and what follows it make up the text; the operand is not empty. -/
theorem read?_append {s : Text} {p : Comparison × Text} (h : read? s = some p) :
    p.1.text ++ p.2 = s ∧ p.1.operand ≠ [] := by
  unfold read? at h
  split at h
  · simp at h
  rename_i first s₁ h₁
  simp only at h
  split at h
  · simp at h
  rename_i keyword s₅ h₅
  split at h
  · simp at h
  obtain ⟨q, h₆, rfl⟩ := Option.map_eq_some_iff.1 h
  obtain ⟨a₁, n₁⟩ := operand?_append h₁
  simp only at a₁ n₁
  refine ⟨?_, by simp [n₁]⟩
  simp only [Comparison.text, Comparison.lead, List.append_assoc]
  rw [(pattern?_append h₆).1, gap_append, keyword?_append h₅, negation_append, gap_append,
    joinedAll_append, a₁]

theorem length_lt_of_read? {s : Text} {p : Comparison × Text} (h : read? s = some p) :
    p.2.length < s.length := by
  obtain ⟨happ, hne⟩ := read?_append h
  have := congrArg List.length happ
  have := List.length_pos_iff.2 hne
  simp only [Comparison.text, Comparison.lead, List.length_append] at *
  omega

end QueryClauses.Sql.Like
