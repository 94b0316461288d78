import QueryClauses.Value.Binary64

/-!
# Shortest decimals

A floating point value is written with the fewest decimal digits that read back as the same value;
of several such decimals, the nearest one. Which decimals read back is decided in exact integer
arithmetic: those in the interval half way to the neighbouring values, ends included when the
significand is even.

How the digits are set out, plainly or with an exponent, is a matter of each format and held in a
`DecimalLayout`.
-/

namespace QueryClauses

/-- The number `digits * 10 ^ exponent`. -/
structure Decimal where
  digits : Nat
  exponent : Int
deriving DecidableEq, Repr

/-- How a format sets out the digits of a number. -/
structure DecimalLayout where
  /-- The least exponent of the leading digit that is written without an exponent. -/
  plainFrom : Int
  /-- The least exponent above it that is written with an exponent. -/
  plainBelow : Int
  /-- Whether exponents that are not negative carry a plus sign. -/
  plusSign : Bool
  /-- Whether of two equally near decimals the greater one is taken, and not the even one. -/
  tieUp : Bool
deriving DecidableEq, Repr

namespace Decimal

/-- Compares `a * 10 ^ i` with `b * 2 ^ j`. -/
def compareScaled (a : Nat) (i : Int) (b : Nat) (j : Int) : Ordering :=
  compare (a * Nat.pow 10 i.toNat * Nat.pow 2 (-j).toNat)
    (b * Nat.pow 2 j.toNat * Nat.pow 10 (-i).toNat)

/-- Whether a decimal lies among the reals that round to `x`. -/
def readsBack (x : Binary64) (d : Decimal) : Bool :=
  let m := 4 * x.significand
  let low := compareScaled d.digits d.exponent (if x.isBinadeStart then m - 1 else m - 2)
    (x.exponent - 2)
  let high := compareScaled d.digits d.exponent (m + 2) (x.exponent - 2)
  let even := x.significand % 2 == 0
  (low == .gt || (even && low == .eq)) && (high == .lt || (even && high == .eq))

/-- The multiple of `10 ^ grid` next below the absolute value of `x`, or equal to it. -/
def below (x : Binary64) (grid : Int) : Decimal :=
  ⟨x.significand * Nat.pow 2 x.exponent.toNat * Nat.pow 10 (-grid).toNat /
    (Nat.pow 2 (-x.exponent).toNat * Nat.pow 10 grid.toNat), grid⟩

/-- The nearest multiple of `10 ^ grid` that reads back as `x`, if any does. -/
def nearest? (tieUp : Bool) (x : Binary64) (grid : Int) : Option Decimal :=
  let low := below x grid
  let high : Decimal := ⟨low.digits + 1, grid⟩
  match readsBack x low, readsBack x high with
  | false, false => none
  | true, false => some low
  | false, true => some high
  | true, true =>
    -- twice the value against the sum of its two neighbours
    match compareScaled (2 * low.digits + 1) grid (2 * x.significand) x.exponent with
    | .gt => some low
    | .lt => some high
    | .eq => some (if tieUp || low.digits % 2 == 1 then high else low)

/-- The exponent just above that of the leading digit: the least `k` with `x < 10 ^ k`. -/
def scale (x : Binary64) : Int :=
  -- the binary logarithm times 0.30103 lies below the least exponent and at most two off
  let guess := ((x.significand.log2 : Int) + x.exponent) * 30103 / 100000
  ((List.range 4).map fun (i : Nat) => guess + i).find?
    (fun k => compareScaled 1 k x.significand x.exponent == .gt) |>.getD (guess + 4)

/-- The digits without zeros at the end. -/
def stripZeros (d : Decimal) : Decimal :=
  if d.digits ≠ 0 ∧ d.digits % 10 = 0 then stripZeros ⟨d.digits / 10, d.exponent + 1⟩ else d
termination_by d.digits
decreasing_by omega

/-- The shortest decimal that reads back as the absolute value of `x`, a finite value but zero. -/
def shortest (tieUp : Bool) (x : Binary64) : Decimal :=
  let k := scale x
  let found := (List.range 17).findSome? fun (n : Nat) => nearest? tieUp x (k - 1 - n)
  stripZeros (found.getD (below x x.exponent))

/-- The digits of a decimal, set out by a format's layout. -/
def render (layout : DecimalLayout) (d : Decimal) : String :=
  let ds := (toString d.digits).toList
  let lead : Int := ds.length + d.exponent - 1
  if layout.plainFrom ≤ lead ∧ lead < layout.plainBelow then
    if lead < 0 then
      "0." ++ String.ofList (List.replicate (-lead - 1).toNat '0' ++ ds)
    else
      let whole := lead.toNat + 1
      let fraction := ds.drop whole
      String.ofList (ds.take whole ++ List.replicate (whole - ds.length) '0') ++ "." ++
        (if fraction.isEmpty then "0" else String.ofList fraction)
  else
    let fraction := ds.drop 1
    let point := if fraction.isEmpty then "" else "." ++ String.ofList fraction
    let plus := if layout.plusSign && 0 ≤ lead then "+" else ""
    String.ofList (ds.take 1) ++ point ++ "e" ++ plus ++ toString lead

end Decimal

/-- A finite value as text. -/
def Binary64.render (layout : DecimalLayout) (x : Binary64) : String :=
  let sign := if x.isNegative then "-" else ""
  if x.significand = 0 then sign ++ "0.0"
  else sign ++ (Decimal.shortest layout.tieUp x).render layout

end QueryClauses
