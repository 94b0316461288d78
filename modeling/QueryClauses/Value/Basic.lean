import QueryClauses.Value.Binary64
import QueryClauses.Value.Calendar
import QueryClauses.Text.Quoted
import Std.Data.TreeMap

/-!
# Values

What a placeholder stands for. A value of an enumeration is kept by its ordinal and bound as an
integer, so renaming a member changes no stored comparison.
-/

namespace QueryClauses

/-- A universally unique identifier. -/
structure Uuid where
  bits : BitVec 128
deriving DecidableEq, Repr

namespace Uuid

/-- Five groups of lower-case hexadecimal digits, joined by hyphens. -/
def render (id : Uuid) : String :=
  let ds := Text.hexPadded 32 id.bits.toNat
  let group (start size : Nat) := String.ofList ((ds.drop start).take size)
  "-".intercalate [group 0 8, group 8 4, group 12 4, group 16 4, group 20 12]

example : render ⟨0x550e8400e29b41d4a716446655440000⟩ = "550e8400-e29b-41d4-a716-446655440000" := by
  decide +kernel

end Uuid

/-- A value to bind to a placeholder. -/
inductive Value where
  | null
  | bool (b : Bool)
  | int (n : Int64)
  | float (x : Binary64)
  | text (s : String)
  | timestamp (t : Timestamp)
  | uuid (id : Uuid)
  /-- A member of an enumeration, by its ordinal. -/
  | ordinal (n : Int32)
  /-- Several values bound as one, as the right side of IN takes them. -/
  | list (items : List Value)
deriving Repr

namespace Value

instance : Inhabited Value := ⟨null⟩

def isNull : Value → Bool
  | null => true
  | _ => false

def isList : Value → Bool
  | list _ => true
  | _ => false

/-- The text of a text value. -/
def text? : Value → Option String
  | text s => some s
  | _ => none

mutual

/-- The value as it is bound: ordinals become integers, at any depth of nesting. -/
def toBound : Value → Value
  | ordinal n => int n.toInt64
  | list items => list (toBoundAll items)
  | v => v

/-- The values of a list as they are bound. -/
def toBoundAll : List Value → List Value
  | [] => []
  | v :: vs => toBound v :: toBoundAll vs

end

theorem toBoundAll_eq_map (vs : List Value) : toBoundAll vs = vs.map toBound := by
  induction vs with
  | nil => rfl
  | cons v vs ih => simp [toBoundAll, ih]

end Value

/-- The values of a statement's placeholders, by name. -/
abbrev Bindings := Std.TreeMap String Value

end QueryClauses
