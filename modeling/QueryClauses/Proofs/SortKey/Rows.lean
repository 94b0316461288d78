import Mathlib.Order.Defs.LinearOrder
import Mathlib.Order.Compare
import QueryClauses.SortKey

/-!
# The order of rows

A database compares rows by a list of keys, one after the other (`compareRows`). A key is a column,
or whether a column has a value; of a column it may say where rows without a value come, otherwise
the database decides. Rows that no key on a column tells apart have the same value there
(`eq_of_compareRows_eq`). To tell rows without a value from the others before the values are
compared, is to place them (`compareRows_presence`).
-/

namespace QueryClauses

/-- A key that rows are compared by. -/
inductive RowKey where
  /-- The values of a column. -/
  | value (column : String) (descending : Bool) (nulls : Option NullPlace)
  /-- A number for each row: 0 without a value in a column, otherwise 1. -/
  | presence (column : String) (descending : Bool)
deriving DecidableEq, Repr

/-- Where a database puts rows without a value, by column and direction, if a key does not say. -/
abbrev NullDefault := String → Bool → NullPlace

/-- The values of a row, at most one in each column. -/
abbrev Row (α : String → Type*) := ∀ column, Option (α column)

/-- An order or its reverse. -/
def directed (descending : Bool) (o : Ordering) : Ordering := if descending then o.swap else o

@[simp] theorem directed_eq_eq_iff {descending : Bool} {o : Ordering} :
    directed descending o = .eq ↔ o = .eq := by
  cases descending <;> simp [directed]

/-- Values in a direction; a missing one comes first or last whatever the direction is. -/
def comparePlaced {α : Type*} [LinearOrder α] (place : NullPlace) (descending : Bool) :
    Option α → Option α → Ordering
  | none, none => .eq
  | none, some _ =>
    match place with
    | .first => .lt
    | .last => .gt
  | some _, none =>
    match place with
    | .first => .gt
    | .last => .lt
  | some a, some b => directed descending (compare a b)

theorem comparePlaced_eq_eq_iff {α : Type*} [LinearOrder α] {place : NullPlace} {descending : Bool}
    {a b : Option α} : comparePlaced place descending a b = .eq ↔ a = b := by
  cases a with
  | none => cases b <;> cases place <;> simp [comparePlaced]
  | some a =>
    cases b with
    | none => cases place <;> simp [comparePlaced]
    | some b => simp [comparePlaced]

section Rows

variable {α : String → Type*} [∀ column, LinearOrder (α column)] (defaults : NullDefault)

def RowKey.compare : RowKey → Row α → Row α → Ordering
  | value column descending nulls, r, s =>
    comparePlaced (nulls.getD (defaults column descending)) descending (r column) (s column)
  | presence column descending, r, s =>
    let number (row : Row α) : Nat := if (row column).isNone then 0 else 1
    directed descending (Ord.compare (number r) (number s))

/-- Rows by the first key that tells them apart. -/
def compareRows (keys : List RowKey) (r s : Row α) : Ordering :=
  keys.foldr (fun key rest => (key.compare defaults r s).then rest) .eq

variable {defaults} {keys : List RowKey} {r s : Row α}

theorem compareRows_append (keys keys' : List RowKey) : compareRows defaults (keys ++ keys') r s =
    (compareRows defaults keys r s).then (compareRows defaults keys' r s) := by
  induction keys with
  | nil => rfl
  | cons key keys ih =>
    rw [List.cons_append]
    simp only [compareRows, List.foldr_cons] at ih ⊢
    rw [ih, Ordering.then_assoc]

/-- Rows tie if every key ties. -/
theorem compareRows_eq_eq_iff :
    compareRows defaults keys r s = .eq ↔ ∀ key ∈ keys, key.compare defaults r s = .eq := by
  induction keys with
  | nil => simp [compareRows]
  | cons key keys ih =>
    rw [List.forall_mem_cons, ← ih]
    exact Ordering.then_eq_eq

theorem eq_of_compareRows_eq {column : String} {descending : Bool} {nulls : Option NullPlace}
    (hkey : .value column descending nulls ∈ keys) (h : compareRows defaults keys r s = .eq) :
    r column = s column :=
  comparePlaced_eq_eq_iff.1 (compareRows_eq_eq_iff.1 h _ hkey)

/-- A key in front that tells rows without a value from the others places them, wherever the
database would put them. -/
theorem compareRows_presence (defaults defaults' : NullDefault) (column : String)
    (descending : Bool) (place : NullPlace) (r s : Row α) :
    compareRows defaults [.presence column (place == .last), .value column descending none] r s =
      compareRows defaults' [.value column descending (some place)] r s := by
  simp only [compareRows, List.foldr_cons, List.foldr_nil, RowKey.compare, Option.getD_none,
    Option.getD_some]
  cases r column with
  | none =>
    cases s column with
    | none => cases place <;> rfl
    | some b => cases place <;> rfl
  | some a =>
    cases s column with
    | none => cases place <;> rfl
    | some b => cases place <;> simp [comparePlaced, directed]

end Rows

end QueryClauses
