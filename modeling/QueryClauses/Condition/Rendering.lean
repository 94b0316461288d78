import QueryClauses.Condition

/-!
# Conditions filter by filter

The filters of a list are written one by one as they are, each with whatever operand it has. Some
cannot be written, which is a failure of its own; `Condition.generate` has the list checked as a
whole before it comes to that.
-/

namespace QueryClauses

namespace Operation

/-- What an operation says of a column and an operand, and the names that are left. -/
def written (escape : Char) (column : String) (supply : NameSupply) :
    Operation → Operand → Except FilterFault Condition × NameSupply
  | equals, .single .null => (.ok ⟨column ++ " IS NULL", [], [column]⟩, supply)
  | different, .single .null => (.ok ⟨column ++ " IS NOT NULL", [], [column]⟩, supply)
  | like, .single v =>
    let (name, supply) := supply.next
    (.ok (.like escape column name (Pattern.contains escape (v.text?.getD "").toList)), supply)
  | between, .range low high =>
    let (lowName, supply) := supply.next
    let (highName, supply) := supply.next
    (.ok ⟨"(:" ++ lowName ++ " <= " ++ column ++ " AND " ++ column ++ " <= :" ++ highName ++ ")",
      [(lowName, low.toBound), (highName, high.toBound)], [column]⟩, supply)
  | isIn, .list vs =>
    let (name, supply) := supply.next
    (.ok ⟨column ++ " IN (:" ++ name ++ ")", [(name, .list (vs.map Value.toBound))], [column]⟩,
      supply)
  | isIn, .single v =>
    let (name, supply) := supply.next
    (.ok ⟨column ++ " IN (:" ++ name ++ ")", [(name, v.toBound)], [column]⟩, supply)
  | operation, .single v =>
    match operation.sign? with
    | none => (.error (.stated (operation.name ++ " is not a comparison")), supply)
    | some sign =>
      let (name, supply) := supply.next
      (.ok ⟨column ++ " " ++ sign.text ++ " :" ++ name, [(name, v.toBound)], [column]⟩, supply)
  | operation, operand =>
    (.error (.stated (operation.name ++ " cannot take " ++ operand.shown)), supply)

end Operation

/-- The condition of a filter that is no mark, and the names that are left. -/
def Filter.written (catalog : Catalog) (escape : Char) (supply : NameSupply) (f : Filter) :
    Except Failure Condition × NameSupply :=
  match f.entity, f.field with
  | some entity, some field =>
    match catalog.column entity field with
    | .error failure => (.error failure, supply)
    | .ok column =>
      let (result, supply) := f.operation.written escape column supply f.operand
      (result.mapError .malformedFilter, supply)
  | _, _ => (.error (.malformedFilter (.stated "operand without entity or field")), supply)

namespace Condition

/-- The condition of filters that are written one by one, and the names that are left. -/
def ofEach (catalog : Catalog) (escape : Char) (behindOperand : Bool) (supply : NameSupply) :
    List Filter → Except Failure Condition × NameSupply
  | [] => (.ok {}, supply)
  | f :: fs =>
    let followed (c : Condition) (behindOperand : Bool) (supply : NameSupply) :=
      let (result, supply) := ofEach catalog escape behindOperand supply fs
      (result.map (c ++ ·), supply)
    match f.operation with
    | .opening => followed (mark (implicitOr behindOperand ++ "(")) false supply
    | .closing => followed (mark ")") true supply
    | .and => followed (mark " AND ") false supply
    | .or => followed (mark " OR ") false supply
    | _ =>
      match f.written catalog escape supply with
      | (.error failure, supply) => (.error failure, supply)
      | (.ok c, supply) => followed (mark (implicitOr behindOperand) ++ c) true supply

/-- The condition that a list of filters describes, and the names that are left. -/
def generate (catalog : Catalog) (escape : Char) (supply : NameSupply) (fs : List Filter) :
    Except Failure Condition × NameSupply :=
  match Filter.check fs with
  | .error fault => (.error (.malformedFilter fault), supply)
  | .ok () => ofEach catalog escape false supply fs

end Condition

end QueryClauses
