import QueryClauses.Sql.Survey
import QueryClauses.Value.Basic

/-!
# Placeholders by position

A statement whose placeholders are names becomes one whose placeholders are numbers, with the values
in the order of the numbers. A name that occurs again has the same numbers again; a list takes one
number for each of its items, and an empty list is written NULL.
-/

namespace QueryClauses.Sql

/-- A statement with numbered placeholders and the values of the numbers. -/
structure Positional where
  sql : Text
  values : List Value
deriving Repr

namespace Positional

/-- The values that a bound value takes numbers for. -/
def spread (v : Value) : List Value :=
  match v.toBound with
  | .list items => items
  | single => [single]

/-- `count` numbered placeholders, from number `first` on. -/
def numbered (first count : Nat) : Text :=
  if count = 0 then "NULL".toList
  else (", ".intercalate ((List.range' first count).map fun k => "$" ++ toString k)).toList

/-- Numbers the placeholders of tokens. The names met before have the texts `seen`, and `count`
numbers are taken; the first name without a value is returned as a fault. -/
def ofTokens (bindings : Bindings) (seen : List (Text × Text)) (count : Nat) :
    List Token → Except Text Positional
  | [] => .ok ⟨[], []⟩
  | t :: ts =>
    let followed (text : Text) (values : List Value) (rest : Positional) : Positional :=
      ⟨text ++ rest.sql, values ++ rest.values⟩
    if t.kind = .placeholder then
      let name := t.text.tail
      match seen.lookup name with
      | some text => (ofTokens bindings seen count ts).map (followed text [])
      | none =>
        match bindings[String.ofList name]? with
        | none => .error name
        | some v =>
          let values := spread v
          let text := numbered (count + 1) values.length
          (ofTokens bindings ((name, text) :: seen) (count + values.length) ts).map
            (followed text values)
    else (ofTokens bindings seen count ts).map (followed t.text [])

end Positional

/-- Numbers the placeholders of a statement, or returns the first name that has no value. -/
def positional (bindings : Bindings) (s : Text) : Except Text Positional :=
  Positional.ofTokens bindings [] 0 (lex s)

end QueryClauses.Sql
