import QueryClauses.Text.Class

/-!
# Regular expressions

Regular expressions as they are written, and what they match. The matches at a place of a text are
listed in the order in which they are tried: the left one of two alternatives first, and a repetition
as often as possible first. A search finds the first match at the first place that has one
(`Regex.find`).
-/

namespace QueryClauses

open CharClass

/-- A member of a class of characters. -/
inductive ClassItem where
  | char (c : Char)
  | range (low high : Char)
  | word
  | digit
  | space
deriving DecidableEq, Repr

namespace ClassItem

def source : ClassItem → String
  | char c => String.singleton c
  | range low high => String.ofList [low, '-', high]
  | word => "\\w"
  | digit => "\\d"
  | space => "\\s"

def accepts : ClassItem → Char → Bool
  | char c, d => d == c
  | range low high, d => low ≤ d && d ≤ high
  | word, d => isWordChar d
  | digit, d => isDigit d
  | space, d => isSpace d

end ClassItem

/-- A regular expression. -/
inductive Regex where
  /-- The start of the whole text. -/
  | start
  | one (item : ClassItem)
  /-- One character that belongs, or does not belong, to some items. -/
  | set (negated : Bool) (items : List ClassItem)
  /-- Letters, each in either case. -/
  | anyCase (letters : List Char)
  | seq (r r' : Regex)
  | alt (r r' : Regex)
  | star (r : Regex)
  | plus (r : Regex)
  | opt (r : Regex)
  | group (r : Regex)
  | named (name : String) (r : Regex)
deriving DecidableEq, Repr

namespace Regex

/-- One expression behind another. -/
def seqs (r : Regex) : List Regex → Regex
  | [] => r
  | r' :: rs => .seq r (seqs r' rs)

/-- One expression or another, the first one first. -/
def alts (r : Regex) : List Regex → Regex
  | [] => r
  | r' :: rs => .alt r (alts r' rs)

/-! ## How an expression is written -/

/-- The characters that stand for themselves behind a backslash only. -/
def specialChars : List Char :=
  ['.', '*', '+', '?', '(', ')', '[', ']', '\x7b', '\x7d', '|', '^', '$', '\\']

/-- How tightly the parts of an expression hang together. -/
def level : Regex → Nat
  | alt .. => 0
  | seq .. => 1
  | star _ | plus _ | opt _ => 2
  | _ => 3

/-- The text of an expression where one of some level is wanted. -/
def enclosed (wanted level : Nat) (text : String) : String :=
  if level < wanted then "(?:" ++ text ++ ")" else text

/-- The text of an expression. -/
def source : Regex → String
  | start => "^"
  | one (.char c) => if specialChars.contains c then String.ofList ['\\', c] else String.singleton c
  | one item => item.source
  | set negated items =>
    (if negated then "[^" else "[") ++ String.join (items.map ClassItem.source) ++ "]"
  | anyCase letters => "(?i:" ++ String.ofList letters ++ ")"
  | seq r r' => enclosed 1 r.level r.source ++ enclosed 1 r'.level r'.source
  | alt r r' => r.source ++ "|" ++ r'.source
  | star r => enclosed 3 r.level r.source ++ "*"
  | plus r => enclosed 3 r.level r.source ++ "+"
  | opt r => enclosed 3 r.level r.source ++ "?"
  | group r => "(?:" ++ r.source ++ ")"
  | named name r => "(?P<" ++ name ++ ">" ++ r.source ++ ")"

/-! ## Matching -/

/-- Whether a character is a letter in either case. The letters of ASCII have the two further forms
of the Kelvin sign and of the long s. -/
def sameLetter (letter c : Char) : Bool :=
  c.toLower == letter.toLower || (letter.toLower == 'k' && c == '\u212a') ||
    (letter.toLower == 's' && c == '\u017f')

/-- A place of a text: the bytes in front of it, what follows it, and the bytes between which named
groups have matched, the last one first. -/
structure Place where
  pos : Nat
  rest : Text
  captures : List (String × Nat × Nat) := []
deriving DecidableEq, Repr

namespace Place

/-- The place behind one character, if that is as wanted. -/
def next (wanted : Char → Bool) (p : Place) : List Place :=
  match p.rest with
  | [] => []
  | c :: s => if wanted c then [{ p with pos := p.pos + c.utf8Size, rest := s }] else []

/-- The places behind letters, each in either case. -/
def nextLetters : List Char → Place → List Place
  | [], p => [p]
  | letter :: letters, p => (p.next (sameLetter letter)).flatMap (nextLetters letters)

/-- The places behind steps, those behind more steps first. A step that takes nothing ends them. -/
def repeated (step : Place → List Place) (p : Place) : List Place :=
  let further := (step p).filter fun q => q.rest.length < p.rest.length
  further.attach.flatMap (fun q => repeated step q.1) ++ [p]
termination_by p.rest.length
decreasing_by simpa using (List.mem_filter.1 q.2).2

/-- The place with a capture that ends there. -/
def captured (name : String) (start : Nat) (p : Place) : Place :=
  { p with captures := (name, start, p.pos) :: p.captures }

end Place

/-- The places behind the matches of an expression, in the order in which they are tried. -/
def behind : Regex → Place → List Place
  | start, p => if p.pos = 0 then [p] else []
  | one item, p => p.next item.accepts
  | set negated items, p => p.next fun c => items.any (·.accepts c) != negated
  | anyCase letters, p => p.nextLetters letters
  | seq r r', p => (r.behind p).flatMap r'.behind
  | alt r r', p => r.behind p ++ r'.behind p
  | star r, p => p.repeated r.behind
  | plus r, p => (r.behind p).flatMap (Place.repeated r.behind)
  | opt r, p => r.behind p ++ [p]
  | group r, p => r.behind p
  | named name r, p => (r.behind p).map (Place.captured name p.pos)

/-- The first match in a text that starts at offset `pos`, if there is one: the place behind it. -/
def find (r : Regex) (pos : Nat) : Text → Option Place
  | [] => (r.behind ⟨pos, [], []⟩).head?
  | c :: s => (r.behind ⟨pos, c :: s, []⟩).head?.or (r.find (pos + c.utf8Size) s)

end Regex

end QueryClauses
