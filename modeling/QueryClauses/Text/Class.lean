import QueryClauses.Text.WordRanges
import QueryClauses.Text.DigitRanges
import QueryClauses.Text.HiddenRanges

/-!
# Character classes

Two families of classes meet in statement text. Identifiers, keywords and placeholder names are made
of ASCII characters only; white space, word characters and decimal digits are Unicode properties.
Every character of an ASCII class lies in the Unicode class of the same meaning.
-/

namespace QueryClauses

/-- Text as the list of its characters. -/
abbrev Text := List Char

namespace CharClass

/-- Whether a code point lies in one of the closed ranges. -/
def inRanges (ranges : List (Nat × Nat)) (n : Nat) : Bool :=
  ranges.any fun r => r.1 ≤ n && n ≤ r.2

/-! ## ASCII classes -/

/-- An ASCII letter or the underscore: what a name starts with. -/
def isNameStart (c : Char) : Bool := c == '_' || c.isAlpha

/-- An ASCII letter, an ASCII digit or the underscore: what a placeholder's name continues with. -/
def isNameChar (c : Char) : Bool := c == '_' || c.isAlphanum

/-- A name character or the dollar sign: what keywords and identifiers are made of. -/
def isIdentChar (c : Char) : Bool := c == '_' || c == '$' || c.isAlphanum

/-! ## Unicode classes -/

/-- Closed ranges of the 25 white space characters. -/
def spaceRanges : List (Nat × Nat) :=
  [(0x09, 0x0D), (0x20, 0x20), (0x85, 0x85), (0xA0, 0xA0), (0x1680, 0x1680), (0x2000, 0x200A),
   (0x2028, 0x2029), (0x202F, 0x202F), (0x205F, 0x205F), (0x3000, 0x3000)]

/-- White space, by the Unicode property of that name. -/
def isSpace (c : Char) : Bool := inRanges spaceRanges c.toNat

/-- A character that continues a word: alphabetic, a mark, a decimal digit, connector punctuation or
a join control. -/
def isWordChar (c : Char) : Bool :=
  isNameChar c || (0x80 ≤ c.toNat && inRanges wordRanges c.toNat)

/-- A decimal digit of any script. -/
def isDigit (c : Char) : Bool :=
  c.isDigit || (0x80 ≤ c.toNat && inRanges digitRanges c.toNat)

/-- A character that a quoted text shows as a code point and not as itself. -/
def isHidden (c : Char) : Bool :=
  c.toNat < 0x20 || (0x7F ≤ c.toNat && inRanges hiddenRanges c.toNat)

theorem isIdentChar_of_isNameChar {c : Char} (h : isNameChar c = true) : isIdentChar c = true := by
  simp only [isNameChar, isIdentChar, Bool.or_eq_true] at h ⊢
  rcases h with h | h
  · exact .inl (.inl h)
  · exact .inr h

theorem isNameChar_of_isNameStart {c : Char} (h : isNameStart c = true) : isNameChar c = true := by
  simp only [isNameStart, isNameChar, Char.isAlphanum, Bool.or_eq_true] at h ⊢
  rcases h with h | h
  · exact .inl h
  · exact .inr (.inl h)

end CharClass

end QueryClauses
