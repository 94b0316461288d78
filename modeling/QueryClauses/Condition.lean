import QueryClauses.Catalog
import QueryClauses.Pattern
import QueryClauses.NameSupply

/-!
# Conditions as text

A condition is written as the text of a WHERE clause. Values do not appear in it: each is bound to a
placeholder, in the order of the text, under a name that a supply of names hands out.
-/

namespace QueryClauses

/-- The text of a condition, the values of its placeholders and the columns that it names, both in
the order of the text. -/
structure Condition where
  text : String := ""
  bindings : List (String × Value) := []
  columns : List String := []
deriving Repr

namespace Condition

def isEmpty (c : Condition) : Bool := c.text.isEmpty

/-- One condition behind another. -/
def append (c d : Condition) : Condition :=
  ⟨c.text ++ d.text, c.bindings ++ d.bindings, c.columns ++ d.columns⟩

instance : Append Condition := ⟨append⟩

/-- A piece of text that names no column. -/
def mark (text : String) : Condition := { text }

/-- A comparison of a column with a pattern, which is bound under a name. -/
def like (escape : Char) (column name : String) (pattern : Text) : Condition where
  text := column ++ " LIKE :" ++ name ++ " ESCAPE '" ++ String.singleton escape ++ "'"
  bindings := [(name, .text (String.ofList pattern))]
  columns := [column]

end Condition

namespace Comparison

/-- What a comparison says of a column, and the names that are left. -/
def written (escape : Char) (column : String) (supply : NameSupply) :
    Comparison → Condition × NameSupply
  | isNull => (⟨column ++ " IS NULL", [], [column]⟩, supply)
  | isNotNull => (⟨column ++ " IS NOT NULL", [], [column]⟩, supply)
  | compares sign v =>
    let (name, supply) := supply.next
    (⟨column ++ " " ++ sign.text ++ " :" ++ name, [(name, v.toBound)], [column]⟩, supply)
  | contains s =>
    let (name, supply) := supply.next
    (.like escape column name (Pattern.contains escape s.toList), supply)
  | between low high =>
    let (lowName, supply) := supply.next
    let (highName, supply) := supply.next
    (⟨"(:" ++ lowName ++ " <= " ++ column ++ " AND " ++ column ++ " <= :" ++ highName ++ ")",
      [(lowName, low.toBound), (highName, high.toBound)], [column]⟩, supply)
  | isIn vs =>
    let (name, supply) := supply.next
    (⟨column ++ " IN (:" ++ name ++ ")", [(name, .list (vs.map Value.toBound))], [column]⟩, supply)

end Comparison

namespace Condition

/-- OR where an operand would otherwise follow another. -/
def implicitOr (behindOperand : Bool) : String := if behindOperand then " OR " else ""

/-- The condition of a list of elements, and the names that are left: also if a field cannot be
looked up, what was handed out before stays handed out. -/
def ofElements (catalog : Catalog) (escape : Char) (behindOperand : Bool) (supply : NameSupply) :
    List Element → Except Failure Condition × NameSupply
  | [] => (.ok {}, supply)
  | element :: rest =>
    let followed (c : Condition) (behindOperand : Bool) (supply : NameSupply) :=
      let (result, supply) := ofElements catalog escape behindOperand supply rest
      (result.map (c ++ ·), supply)
    match element with
    | .opening => followed (mark (implicitOr behindOperand ++ "(")) false supply
    | .closing => followed (mark ")") true supply
    | .and => followed (mark " AND ") false supply
    | .or => followed (mark " OR ") false supply
    | .comparison entity field c =>
      match catalog.column entity field with
      | .error failure => (.error failure, supply)
      | .ok column =>
        let (c, supply) := c.written escape column supply
        followed (mark (implicitOr behindOperand) ++ c) true supply

/-- The condition that a list of filters describes, and the names that are left. The list is checked
as a whole before anything is written. -/
def ofFilters (catalog : Catalog) (escape : Char) (supply : NameSupply) (fs : List Filter) :
    Except Failure Condition × NameSupply :=
  match Element.read fs with
  | .error fault => (.error (.malformedFilter fault), supply)
  | .ok elements => ofElements catalog escape false supply elements

end Condition

end QueryClauses
