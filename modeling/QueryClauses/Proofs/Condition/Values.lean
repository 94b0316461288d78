import QueryClauses.Proofs.Condition.Expression
import QueryClauses.Proofs.Condition.Operands
import QueryClauses.Proofs.Sql.Unbroken

/-!
# The values of a condition

Values are bound in the order of the list, under names that are numbered in the order of the text
(`values_generate`): of two readings of a condition, by its filters and by its text, neither has a
value or a placeholder that the other lacks.
-/

namespace QueryClauses

open Sql

/-! ## Ordinals -/

namespace Filter

/-- The values that a filter binds, in the order in which they are written. -/
def values (escape : Char) (f : Filter) : List Value :=
  match f.operation, f.operand with
  | .equals, .single .null | .different, .single .null => []
  | .like, .single (.text s) => [.text (String.ofList (Pattern.contains escape s.toList))]
  | .between, .range low high => [low, high]
  | .isIn, .list vs => [.list vs]
  | _, .single v => [v]
  | _, _ => []

/-- The values that a list of filters binds, in the form in which they are bound. -/
def boundValues (escape : Char) (fs : List Filter) : List Value :=
  ((operands fs).flatMap (values escape)).map Value.toBound

end Filter

theorem Comparison.map_bindings_written {f : Filter} {k : Comparison}
    (hk : of? f.operation f.operand = some k) (escape : Char) (column : String)
    (supply : NameSupply) : (k.written escape column supply).1.bindings.map (·.2) =
      (f.values escape).map Value.toBound := by
  obtain ⟨entity, field, operation, operand⟩ := f
  cases of?_eq_some_iff.1 hk with
  | isNull | isNotNull | contains | between => rfl
  | isIn | isInSingle =>
    simp only [written, Filter.values, List.map_cons, List.map_nil, Value.toBound,
      Value.toBoundAll_eq_map]
  | @compares _ sign v hsign hnull hlist =>
    cases v with
    | null => cases hnull
    | _ => cases operation <;> cases hsign <;> rfl

namespace Condition

variable {catalog : Catalog} {escape : Char} {supply supply' : NameSupply} {fs : List Filter}
  {c : Condition} {ts : List Token}

theorem Strung.map_bindings (h : Strung catalog escape supply fs c ts supply') :
    c.bindings.map (·.2) = (fs.flatMap (Filter.values escape)).map Value.toBound := by
  induction h with
  | nil => rfl
  | mark text hms h ih => exact ih
  | operand hf hk h ih =>
    rw [bindings_append, List.map_append, ih, Comparison.map_bindings_written hk,
      List.flatMap_cons, List.map_append]

end Condition

/-! ## Literals -/

section

variable {escape : Char} {column : Text} (hcolumn : IsColumn column) {supply : NameSupply}
include hcolumn

end

namespace Condition

variable {catalog : Catalog} {escape : Char} {supply supply' : NameSupply} {fs : List Filter}
  {c : Condition} {ts : List Token}

section

variable (hcatalog : catalog.check = .ok ())
include hcatalog

end

/-! ## Values by number -/

section

variable {count : Nat}
  (h : Generated catalog escape { NameSupply.forFilters with count } fs c supply')
include h

theorem Generated.map_bindings : c.bindings.map (·.2) = Filter.boundValues escape fs :=
  h.strung.map_bindings

theorem Generated.length_names : c.names.length = (Filter.boundValues escape fs).length := by
  rw [← h.map_bindings, names, List.length_map, List.length_map]

theorem Generated.names_eq :
    c.names = (List.range' (count + 1) (Filter.boundValues escape fs).length).map
      NameSupply.forFilters.name := by
  rw [h.draws.names_eq, h.length_names, NameSupply.draw_eq]
  rfl

end

end Condition

end QueryClauses
