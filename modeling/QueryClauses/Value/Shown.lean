import QueryClauses.Value.Basic
import QueryClauses.Value.Decimal

/-!
# Values as text

The form in which messages show a value, and its form in JSON. Each sets out floating point numbers
by a layout of its own; ordinals are plain numbers in JSON, and timestamps and identifiers are
strings there.
-/

namespace QueryClauses

/-- Messages write numbers plainly from 0.0001 on and below 10 ^ 16. -/
def messageLayout : DecimalLayout where
  plainFrom := -4
  plainBelow := 16
  plusSign := false
  tieUp := true

/-- JSON has numbers written plainly from 0.00001 on and below 10 ^ 16. -/
def jsonLayout : DecimalLayout where
  plainFrom := -5
  plainBelow := 16
  plusSign := true
  tieUp := false

namespace Binary64

/-- A floating point value in a message. -/
def shown (x : Binary64) : String :=
  if x.isNaN then "NaN"
  else if x.isInfinite then if x.isNegative then "-inf" else "inf"
  else x.render messageLayout

/-- A floating point value in JSON, which has no infinities. -/
def json (x : Binary64) : String :=
  if x.isNaN || x.isInfinite then "null" else x.render jsonLayout

end Binary64

namespace Value

mutual

/-- The value with its kind, as messages show it. -/
def shown : Value → String
  | null => "Null"
  | bool b => "Bool(" ++ (if b then "true" else "false") ++ ")"
  | int n => "Int(" ++ toString n.toInt ++ ")"
  | float x => "Float(" ++ x.shown ++ ")"
  | text s => "Text(" ++ Text.shown s ++ ")"
  | timestamp t => "Timestamp(" ++ t.render ++ ")"
  | uuid id => "Uuid(" ++ id.render ++ ")"
  | ordinal n => "Enum(" ++ toString n.toInt ++ ")"
  | list items => "List([" ++ ", ".intercalate (shownAll items) ++ "])"

/-- The values of a list, as messages show them. -/
def shownAll : List Value → List String
  | [] => []
  | v :: vs => shown v :: shownAll vs

end

mutual

/-- The value in JSON, without white space. -/
def json : Value → String
  | null => "null"
  | bool b => if b then "true" else "false"
  | int n => toString n.toInt
  | float x => x.json
  | text s => Text.json s
  | timestamp t => Text.json t.render
  | uuid id => Text.json id.render
  | ordinal n => toString n.toInt
  | list items => "[" ++ ",".intercalate (jsonAll items) ++ "]"

/-- The values of a list in JSON. -/
def jsonAll : List Value → List String
  | [] => []
  | v :: vs => json v :: jsonAll vs

end

end Value

end QueryClauses
