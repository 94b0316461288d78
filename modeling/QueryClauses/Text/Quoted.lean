import QueryClauses.Text.Class

/-!
# Quoted text

Two ways to write text between double quotes. In messages, characters that have no visible form of
their own are written as code points in braces; in JSON, only control characters are escaped.
-/

namespace QueryClauses.Text

open CharClass

/-- A hexadecimal digit. -/
def hexDigit (n : Nat) : Char := "0123456789abcdef".toList.getD n '0'

/-- The hexadecimal digits of a number, without zeros in front. -/
def hexDigits (n : Nat) : Text := Nat.toDigits 16 n

/-- Exactly `width` hexadecimal digits, those of the number's remainder. -/
def hexPadded : Nat → Nat → Text
  | 0, _ => []
  | width + 1, n => hexPadded width (n / 16) ++ [hexDigit (n % 16)]

/-- A character inside a quoted text of a message. -/
def shownChar (c : Char) : Text :=
  match c with
  | '\x00' => "\\0".toList
  | '\t' => "\\t".toList
  | '\n' => "\\n".toList
  | '\r' => "\\r".toList
  | '"' => "\\\"".toList
  | '\\' => "\\\\".toList
  | c => if isHidden c then "\\u\x7b".toList ++ hexDigits c.toNat ++ "\x7d".toList else [c]

/-- A text in the form that messages show. -/
def shown (s : String) : String :=
  "\"" ++ String.ofList (s.toList.flatMap shownChar) ++ "\""

/-- A character inside a JSON string. -/
def jsonChar (c : Char) : Text :=
  match c with
  | '"' => "\\\"".toList
  | '\\' => "\\\\".toList
  | '\n' => "\\n".toList
  | '\r' => "\\r".toList
  | '\t' => "\\t".toList
  | '\x08' => "\\b".toList
  | '\x0c' => "\\f".toList
  | c => if c.toNat < 0x20 then "\\u".toList ++ hexPadded 4 c.toNat else [c]

/-- A text as a JSON string. -/
def json (s : String) : String :=
  "\"" ++ String.ofList (s.toList.flatMap jsonChar) ++ "\""

example : shown "a'\"\x01é" = "\"a'\\\"\\u\x7b1\x7dé\"" := by decide +kernel
example : json "a\x1f\x7f" = "\"a\\u001f\x7f\"" := by decide +kernel

end QueryClauses.Text
