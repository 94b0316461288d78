import QueryClauses.Text.Class

/-!
# Text measured in bytes

Offsets and lengths of text count the bytes of its UTF-8 form. A text is never cut inside a
character, so an offset that a library function hands out is the length of a prefix.

Main statements: `byteLength_append` (lengths add up), `takeBytes_append_dropBytes` (a cut loses
nothing) and `byteLength_takeBytes_le` (a cut stays within its budget).
-/

namespace QueryClauses.Text

open CharClass

/-- The number of bytes of the UTF-8 form. -/
def byteLength : Text → Nat
  | [] => 0
  | c :: s => c.utf8Size + byteLength s

@[simp] theorem byteLength_nil : byteLength [] = 0 := rfl

@[simp] theorem byteLength_cons (c : Char) (s : Text) :
    byteLength (c :: s) = c.utf8Size + byteLength s := rfl

@[simp] theorem byteLength_append (s t : Text) :
    byteLength (s ++ t) = byteLength s + byteLength t := by
  induction s with
  | nil => simp
  | cons c s ih => simp [ih, Nat.add_assoc]

/-- The longest prefix of at most `budget` bytes that ends between two characters. -/
def takeBytes : Nat → Text → Text
  | _, [] => []
  | budget, c :: s =>
    if c.utf8Size ≤ budget then c :: takeBytes (budget - c.utf8Size) s else []

/-- What `takeBytes` leaves over. -/
def dropBytes : Nat → Text → Text
  | _, [] => []
  | budget, c :: s => if c.utf8Size ≤ budget then dropBytes (budget - c.utf8Size) s else c :: s

theorem takeBytes_append_dropBytes (budget : Nat) (s : Text) :
    takeBytes budget s ++ dropBytes budget s = s := by
  induction s generalizing budget with
  | nil => rfl
  | cons c s ih =>
    by_cases h : c.utf8Size ≤ budget
    · simp [takeBytes, dropBytes, h, ih]
    · simp [takeBytes, dropBytes, h]

theorem byteLength_takeBytes_le (budget : Nat) (s : Text) :
    byteLength (takeBytes budget s) ≤ budget := by
  induction s generalizing budget with
  | nil => simp [takeBytes]
  | cons c s ih =>
    by_cases h : c.utf8Size ≤ budget
    · have := ih (budget - c.utf8Size)
      simp only [takeBytes, h, ite_true, byteLength_cons]
      omega
    · simp [takeBytes, h]

/-- The text itself when it has at most `limit` bytes, otherwise as much of it as fits and an
ellipsis. Without a limit, the text itself. -/
def abbreviate (limit : Option Nat) (s : Text) : Text :=
  match limit with
  | none => s
  | some limit =>
    if limit < byteLength s then takeBytes limit s ++ "...".toList else s

/-! ## White space at the ends -/

/-- The text without the white space that it starts with. -/
def trimStart (s : Text) : Text := s.dropWhile isSpace

/-- The text without the white space that it ends with. -/
def trimEnd (s : Text) : Text := (s.reverse.dropWhile isSpace).reverse

/-- The text without white space at either end. -/
def trim (s : Text) : Text := trimEnd (trimStart s)

theorem trimEnd_prefix (s : Text) : trimEnd s <+: s := by
  have h := List.reverse_prefix.2 (List.dropWhile_suffix isSpace (l := s.reverse))
  rwa [List.reverse_reverse] at h

/-- The maximal pieces without white space, in order. -/
def pieces (s : Text) : List Text :=
  go [] s
where
  /-- Collects the characters of the current piece, last one first. -/
  go (piece : Text) : Text → List Text
    | [] => if piece.isEmpty then [] else [piece.reverse]
    | c :: s =>
      if isSpace c then
        if piece.isEmpty then go [] s else piece.reverse :: go [] s
      else go (c :: piece) s

/-- Equality of texts up to the case of ASCII letters. -/
def sameWord (s t : Text) : Bool := s.map Char.toLower == t.map Char.toLower

end QueryClauses.Text
