import QueryClauses.Text.Basic
import QueryClauses.Toml.Node
import QueryClauses.Value.Binary64

/-!
# Numbers of TOML

Integers in one of four bases, and numbers with a fraction, an exponent or both. Underscores group
digits; decimal numbers have no zeros in front.

A number with a fraction must be written to the letter. An integer must only have the outline of
one: what names no number is `Node.unreadable`, and so is a number beyond all bounds. Whether that
is a fault is for those to say who want the number.
-/

namespace QueryClauses.Toml

/-! ## Digits -/

/-- The value of a digit in a base, if it is one. -/
def digit? (base : Nat) (c : Char) : Option Nat :=
  let n :=
    if c.isDigit then c.toNat - '0'.toNat
    else if 'a' ≤ c ∧ c ≤ 'z' then c.toNat - 'a'.toNat + 10
    else if 'A' ≤ c ∧ c ≤ 'Z' then c.toNat - 'A'.toNat + 10
    else base
  if n < base then some n else none

/-- The value of digits grouped by single underscores, after digits that have the value `n`. -/
def digitsFrom (base n : Nat) : Text → Option Nat
  | [] => some n
  | '_' :: c :: s => (digit? base c).bind fun d => digitsFrom base (n * base + d) s
  | c :: s => (digit? base c).bind fun d => digitsFrom base (n * base + d) s

/-- The value of one or more digits. -/
def digits? (base : Nat) : Text → Option Nat
  | [] => none
  | c :: s => (digit? base c).bind fun d => digitsFrom base d s

/-- A sign, and what follows it. -/
def sign (s : Text) : Int × Text :=
  match s with
  | '-' :: r => (-1, r)
  | '+' :: r => (1, r)
  | r => (1, r)

/-- The value of decimal digits without zeros in front, less a sign that they have. -/
def decimal? (s : Text) : Option Nat :=
  match (sign s).2 with
  | '0' :: _ :: _ => none
  | r => digits? 10 r

/-! ## Integers -/

/-- Whether each underscore stands between two digits of base 16, in a text behind the character
`last`. -/
def groupsDigits (last : Char) : Text → Bool
  | [] => last != '_'
  | c :: s =>
    (last != '_' || (digit? 16 c).isSome) && (c != '_' || (digit? 16 last).isSome) &&
      groupsDigits c s

/-- Whether underscores group digits: a text may neither start nor end with one. -/
def isGrouped (s : Text) : Bool := groupsDigits '_' s

/-- The least and the greatest integer that can be read: those of 128 bits, with a sign or
without. -/
def integerBounds : Int × Int := (-Int.pow 2 127, Int.pow 2 128 - 1)

/-- The integer of a sign and digits, unless it has no value. -/
def integerNode (factor : Int) (base : Nat) (s : Text) : Node :=
  match digits? base (s.filter (· != '_')) with
  | none => .unreadable
  | some n =>
    let value := factor * n
    if integerBounds.1 ≤ value ∧ value ≤ integerBounds.2 then .integer value else .unreadable

/-- What is written behind the mark of a base: any number of digits. -/
def based? (base : Nat) (s : Text) : Option Node :=
  if s.all (fun c => c == '_' || (digit? base c).isSome) && (s.isEmpty || isGrouped s) then
    some (integerNode 1 base s)
  else none

/-- An integer in base ten. From the first underscore on it may hold characters that are no digits,
as long as they neither stand beside an underscore nor belong to another kind of number. -/
def plainInteger? (s : Text) : Option Node :=
  let (factor, r) := sign s
  let tail := r.dropWhile Char.isDigit
  let fits := tail.isEmpty ||
    (tail.head? == some '_' && !tail.any ([' ', '.', 'e', 'E'].contains ·))
  if isGrouped r && fits && (r == ['0'] || r.head? != some '0') then
    some (integerNode factor 10 r)
  else none

/-- An integer in any base. -/
def integer? : Text → Option Node
  | '0' :: 'x' :: r => based? 16 r
  | '0' :: 'o' :: r => based? 8 r
  | '0' :: 'b' :: r => based? 2 r
  | s => plainInteger? s

/-! ## Numbers with a fraction or an exponent -/

/-- The exponent behind the letter in front of it. -/
def power? (s : Text) : Option Int :=
  (digits? 10 (sign s).2).map fun n => (sign s).1 * n

/-- The amount `m * 10 ^ q` of a number with a fraction, an exponent or both, as `m` and `q`. -/
def scientific? (s : Text) : Option (Nat × Int) := do
  let digits := s.takeWhile fun c => c != 'e' && c != 'E'
  let whole := digits.takeWhile (· != '.')
  let m ← decimal? whole
  let power ← if digits.length < s.length then power? (s.drop (digits.length + 1)) else some 0
  if whole.length < digits.length then
    let places := digits.drop (whole.length + 1)
    let n := (places.filter (· != '_')).length
    let fraction ← digits? 10 places
    some (m * Nat.pow 10 n + fraction, power - n)
  else if digits.length < s.length then some (m, power)
  else none

/-- A number with a fraction, an exponent or both, or one of the special values. -/
def float? (s : Text) : Option Node :=
  let r := (sign s).2
  if r == "inf".toList || r == "nan".toList then some .float
  else (scientific? s).map fun p => if Binary64.overflows p.1 p.2 then .unreadable else .float

end QueryClauses.Toml
