import QueryClauses.Text.Basic

/-!
# Patterns of LIKE

In a pattern, a percent sign stands for any text and an underscore for any character; the escape
character makes the character behind it stand for itself. A term is escaped before it becomes part
of a pattern, so that it is matched literally.
-/

namespace QueryClauses.Pattern

open CharClass

/-- Whether a character can serve as the escape character: not if it is a wildcard, cannot be
written between single quotes, or is white space. -/
def isUsableEscape (escape : Char) : Bool :=
  !(['%', '_', '\'', '\\'].contains escape || isSpace escape)

/-- Whether a character of a term needs the escape character in front. -/
def isSpecial (escape c : Char) : Bool := c == escape || c == '%' || c == '_'

/-- A term as a pattern that it alone matches. -/
def literal (escape : Char) (term : Text) : Text :=
  term.flatMap fun c => if isSpecial escape c then [escape, c] else [c]

/-- The pattern of texts that start with a term. -/
def startsWith (escape : Char) (term : Text) : Text := literal escape term ++ ['%']

/-- The pattern of texts with a word that starts with a term, but for the first word. -/
def wordStartsWith (escape : Char) (term : Text) : Text := '%' :: ' ' :: startsWith escape term

/-- The pattern of texts that contain a term. -/
def contains (escape : Char) (term : Text) : Text := '%' :: startsWith escape term

end QueryClauses.Pattern
