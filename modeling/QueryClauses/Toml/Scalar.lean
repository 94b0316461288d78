import QueryClauses.Toml.Number

/-!
# Unquoted scalars of TOML

Booleans, numbers, dates and times. Of dates and times only the form is kept.
-/

namespace QueryClauses.Toml

/-! ## Dates and times -/

/-- The value of exactly two digits, and what follows them. -/
def two? : Text → Option (Nat × Text)
  | a :: b :: s =>
    if a.isDigit && b.isDigit then
      some ((a.toNat - '0'.toNat) * 10 + (b.toNat - '0'.toNat), s)
    else none
  | _ => none

/-- The number of days of a month. -/
def daysIn (year month : Nat) : Nat :=
  match month with
  | 2 => if year % 4 = 0 ∧ (year % 100 ≠ 0 ∨ year % 400 = 0) then 29 else 28
  | 4 | 6 | 9 | 11 => 30
  | _ => 31

/-- What follows a date that there is. -/
def behindDate? (s : Text) : Option Text := do
  let (century, s) ← two? s
  let (year, s) ← two? s
  let '-' :: s := s | none
  let (month, s) ← two? s
  let '-' :: s := s | none
  let (day, s) ← two? s
  if 1 ≤ month ∧ month ≤ 12 ∧ 1 ≤ day ∧ day ≤ daysIn (century * 100 + year) month then some s
  else none

/-- What follows a fraction of a second, which may be missing. -/
def behindFraction? : Text → Option Text
  | '.' :: c :: s => if c.isDigit then some (s.dropWhile Char.isDigit) else none
  | '.' :: [] => none
  | s => some s

/-- What follows hours and minutes. -/
def behindMinutes? (s : Text) : Option Text := do
  let (hour, s) ← two? s
  let ':' :: s := s | none
  let (minute, s) ← two? s
  if hour < 24 ∧ minute < 60 then some s else none

/-- What follows a time of day. Seconds may be missing, and a minute may have a leap second. -/
def behindTime? (s : Text) : Option Text := do
  let s ← behindMinutes? s
  match s with
  | ':' :: s =>
    let (second, s) ← two? s
    if second ≤ 60 then behindFraction? s else none
  | s => some s

/-- Whether the text is an offset from universal time, or nothing. -/
def isOffset : Text → Bool
  | [] | ['Z'] | ['z'] => true
  | '+' :: s | '-' :: s => behindMinutes? s == some []
  | _ => false

/-- Whether the text is a date, a time of day, or both. -/
def isDateTime (s : Text) : Bool :=
  match behindDate? s with
  | none => behindTime? s == some []
  | some [] => true
  | some (c :: r) =>
    (c == 'T' || c == 't' || c == ' ') && ((behindTime? r).map isOffset).getD false

/-- The scalar that a text without quotes stands for. -/
def scalar? (s : Text) : Option Node :=
  if s = "true".toList then some (.boolean true)
  else if s = "false".toList then some (.boolean false)
  else integer? s <|> float? s <|> if isDateTime s then some .dateTime else none

end QueryClauses.Toml
