/-!
# Names of generated placeholders

Names are a stem and a running number from 1 on, handed out in the order in which the placeholders
are written. Conditions and searches number theirs apart.
-/

namespace QueryClauses

/-- A supply of names, and how many it has handed out. -/
structure NameSupply where
  stem : String
  count : Nat := 0
deriving DecidableEq, Repr

namespace NameSupply

/-- Names for the values of conditions. -/
def forFilters : NameSupply := { stem := "p" }

/-- Names for the patterns of searches. -/
def forSearch : NameSupply := { stem := "s" }

/-- The name with a given number. -/
def name (supply : NameSupply) (number : Nat) : String := supply.stem ++ toString number

/-- The next name, and the supply without it. -/
def next (supply : NameSupply) : String × NameSupply :=
  (supply.name (supply.count + 1), { supply with count := supply.count + 1 })

/-- The next `n` names, and the supply without them. -/
def draw (supply : NameSupply) : Nat → List String × NameSupply
  | 0 => ([], supply)
  | n + 1 =>
    let (name, supply) := supply.next
    let (names, supply) := supply.draw n
    (name :: names, supply)

end NameSupply

end QueryClauses
