import QueryClauses.Text.Basic
import QueryClauses.Toml.Scalar

/-!
# Quoted strings of TOML

Between double quotes a backslash escapes, between single quotes nothing does. Strings between
triple quotes run over several lines: a line feed right behind the opening quotes is dropped, and a
backslash at the end of a line drops the white space up to the next other character. Each reader
starts behind the opening quotes and returns the string's text and what follows the closing ones.
-/

namespace QueryClauses.Toml

/-- Blanks: white space within a line. -/
def isBlank (c : Char) : Bool := c == ' ' || c == '\t'

/-- A character that may stand for itself on a line. -/
def isPlain (c : Char) : Bool := c == '\t' || (0x20 ≤ c.toNat && c.toNat != 0x7F)

/-- What follows the end of a line, if the text starts with one. -/
def behindLineEnd? : Text → Option Text
  | '\n' :: s => some s
  | '\r' :: '\n' :: s => some s
  | _ => none

/-- The character with a number, if there is one. -/
def charOf? (n : Nat) : Option Char :=
  if h : n.isValidChar then some (Char.ofNatAux n h) else none

/-- The character that `width` hexadecimal digits number, and what follows them. -/
def numbered? (width : Nat) (s : Text) : Option (Char × Text) :=
  let ds := s.take width
  if ds.length = width ∧ !ds.contains '_' then
    (digits? 16 ds).bind fun n => (charOf? n).map fun c => (c, s.drop width)
  else none

/-- The character that is meant behind a backslash, and what follows it. -/
def escaped? : Text → Option (Char × Text)
  | 'b' :: s => some ('\x08', s)
  | 't' :: s => some ('\t', s)
  | 'n' :: s => some ('\n', s)
  | 'f' :: s => some ('\x0c', s)
  | 'r' :: s => some ('\r', s)
  | 'e' :: s => some ('\x1b', s)
  | '"' :: s => some ('"', s)
  | '\\' :: s => some ('\\', s)
  | 'x' :: s => numbered? 2 s
  | 'u' :: s => numbered? 4 s
  | 'U' :: s => numbered? 8 s
  | _ => none

theorem length_lt_of_escaped? {s : Text} {p : Char × Text} (h : escaped? s = some p) :
    p.2.length < s.length := by
  have drop_le (width : Nat) (t : Text) {q : Char × Text} (hq : numbered? width t = some q) :
      q.2.length ≤ t.length := by
    dsimp only [numbered?] at hq
    split at hq
    · obtain ⟨n, -, hn⟩ := Option.bind_eq_some_iff.1 hq
      obtain ⟨c, -, rfl⟩ := Option.map_eq_some_iff.1 hn
      simp
    · simp at hq
  unfold escaped? at h
  split at h
  case h_9 | h_10 | h_11 => exact Nat.lt_succ_of_le (drop_le _ _ h)
  case h_12 => simp at h
  all_goals
    cases h
    simp

/-- A string between double quotes. -/
def basic? : Text → Option (Text × Text)
  | [] => none
  | '"' :: s => some ([], s)
  | '\\' :: s =>
    match _h : escaped? s with
    | none => none
    | some p => (basic? p.2).map fun q => (p.1 :: q.1, q.2)
  | c :: s => if isPlain c then (basic? s).map fun q => (c :: q.1, q.2) else none
termination_by s => s.length
decreasing_by
  · have := length_lt_of_escaped? _h
    simp only [List.length_cons]
    omega
  · simp

/-- A string between single quotes. -/
def literal? : Text → Option (Text × Text)
  | [] => none
  | c :: s =>
    if c = '\'' then some ([], s)
    else if isPlain c then (literal? s).map fun q => (c :: q.1, q.2)
    else none

/-- The quotes that close a string of several lines: three, and up to two more that belong to the
string. -/
def closing? (quote : Char) (s : Text) : Option (Text × Text) :=
  let n := (s.takeWhile (· == quote)).length
  if n < 3 then none
  else
    let inner := min (n - 3) 2
    some (List.replicate inner quote, s.drop (inner + 3))

/-- White space over several lines. -/
def skipLines : Text → Text
  | [] => []
  | c :: s =>
    if isBlank c || c == '\n' then skipLines s
    else if c = '\r' ∧ s.head? = some '\n' then skipLines s
    else c :: s

theorem length_skipLines_le (s : Text) : (skipLines s).length ≤ s.length := by
  fun_induction skipLines s <;> simp only [List.length_nil, List.length_cons] <;> omega

/-- The rest behind a backslash that only white space separates from the end of its line. -/
def continued? (s : Text) : Option Text :=
  (behindLineEnd? (s.dropWhile isBlank)).map skipLines

theorem length_le_of_continued? {s r : Text} (h : continued? s = some r) :
    r.length ≤ s.length := by
  obtain ⟨t, ht, rfl⟩ := Option.map_eq_some_iff.1 h
  have h₁ := length_skipLines_le t
  have h₂ := (List.dropWhile_suffix isBlank (l := s)).length_le
  have h₃ : t.length ≤ (s.dropWhile isBlank).length := by
    unfold behindLineEnd? at ht
    split at ht
    · rename_i heq
      cases ht
      simp [heq]
    · rename_i heq
      cases ht
      simp only [heq, List.length_cons]
      omega
    · simp at ht
  omega

/-- A string between triple double quotes, behind them and the line end right there. -/
def basicLines? (s : Text) : Option (Text × Text) :=
  match closing? '"' s with
  | some p => some p
  | none =>
    match s with
    | [] => none
    | '\\' :: r =>
      match _h : continued? r with
      | some r' => basicLines? r'
      | none =>
        match _h : escaped? r with
        | none => none
        | some p => (basicLines? p.2).map fun q => (p.1 :: q.1, q.2)
    | '\r' :: '\n' :: r => (basicLines? r).map fun q => ('\r' :: '\n' :: q.1, q.2)
    | c :: r =>
      if isPlain c || c == '\n' then (basicLines? r).map fun q => (c :: q.1, q.2) else none
termination_by s.length
decreasing_by
  · have := length_le_of_continued? _h
    simp only [List.length_cons]
    omega
  · have := length_lt_of_escaped? _h
    simp only [List.length_cons]
    omega
  · simp only [List.length_cons]
    omega
  · simp

/-- A string between triple single quotes, behind them and the line end right there. -/
def literalLines? (s : Text) : Option (Text × Text) :=
  match closing? '\'' s with
  | some p => some p
  | none =>
    match s with
    | [] => none
    | '\r' :: '\n' :: r => (literalLines? r).map fun q => ('\r' :: '\n' :: q.1, q.2)
    | c :: r =>
      if isPlain c || c == '\n' then (literalLines? r).map fun q => (c :: q.1, q.2) else none

/-- A string on one line, from its opening quote on. -/
def string? : Text → Option (Text × Text)
  | '"' :: s => basic? s
  | '\'' :: s => literal? s
  | _ => none

/-- A string from its opening quotes on. -/
def anyString? : Text → Option (Text × Text)
  | '"' :: '"' :: '"' :: s => basicLines? ((behindLineEnd? s).getD s)
  | '\'' :: '\'' :: '\'' :: s => literalLines? ((behindLineEnd? s).getD s)
  | s => string? s

end QueryClauses.Toml
