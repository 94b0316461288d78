/-!
# Binary floating point values by their bits

A value of 64 bits is a sign, an exponent field of 11 bits and a fraction of 52 bits; the narrower
format of 32 bits has fields of 8 and 23 bits. Finite values are decoded to `m * 2 ^ q` exactly.
Narrowing rounds to the nearest value, ties to the even one; widening is exact. `overflows` tells
which decimal numbers lie beyond the greatest finite value.
-/

namespace QueryClauses

/-- A binary floating point value of 64 bits. -/
structure Binary64 where
  bits : UInt64
deriving DecidableEq, Repr

namespace Binary64

/-- The sign bit. -/
def isNegative (x : Binary64) : Bool := x.bits.toNat / Nat.pow 2 63 == 1

/-- The exponent field. -/
def exponentField (x : Binary64) : Nat := x.bits.toNat / Nat.pow 2 52 % Nat.pow 2 11

/-- The fraction field. -/
def fraction (x : Binary64) : Nat := x.bits.toNat % Nat.pow 2 52

def isNaN (x : Binary64) : Bool := x.exponentField == 0x7FF && x.fraction != 0

def isInfinite (x : Binary64) : Bool := x.exponentField == 0x7FF && x.fraction == 0

/-- The factor `m` of the absolute value `m * 2 ^ q` of a finite value. -/
def significand (x : Binary64) : Nat :=
  if x.exponentField = 0 then x.fraction else Nat.pow 2 52 + x.fraction

/-- The exponent `q` of the absolute value `m * 2 ^ q` of a finite value. -/
def exponent (x : Binary64) : Int :=
  if x.exponentField = 0 then -1074 else (x.exponentField : Int) - 1075

/-- Whether the value below is half as far away as the value above. -/
def isBinadeStart (x : Binary64) : Bool := x.fraction == 0 && 1 < x.exponentField

end Binary64

/-- The quotient rounded to the nearest natural number, ties to the even one. -/
def roundQuotient (num den : Nat) : Nat :=
  let q := num / den
  let r := num % den
  if 2 * r < den ∨ (2 * r = den ∧ q % 2 = 0) then q else q + 1

namespace Binary64

/-- The bits of the nearest value of 32 bits. Beyond the greatest one lies infinity; what is no
number keeps its sign and the leading part of its fraction. -/
def narrow (x : Binary64) : UInt32 :=
  let sign := if x.isNegative then Nat.pow 2 31 else 0
  let magnitude :=
    if x.isNaN then 0x7FC00000 ||| x.fraction / Nat.pow 2 29
    else if x.isInfinite then 0x7F800000
    else if x.significand = 0 then 0
    else
      -- the last place is worth 2 ^ unit, at least that of the least value
      let unit := max (x.significand.log2 + x.exponent - 23) (-149)
      let shift := unit - x.exponent
      let steps := roundQuotient (x.significand * Nat.pow 2 (-shift).toNat) (Nat.pow 2 shift.toNat)
      -- a carry out of the fraction moves into the exponent field
      min ((unit + 149).toNat * Nat.pow 2 23 + steps) 0x7F800000
  UInt32.ofNat (sign + magnitude)

/-- The value of 64 bits that equals a value of 32 bits. -/
def widen (bits : UInt32) : Binary64 :=
  let sign := bits.toNat / Nat.pow 2 31 * Nat.pow 2 63
  let field := bits.toNat / Nat.pow 2 23 % Nat.pow 2 8
  let fraction := bits.toNat % Nat.pow 2 23
  let magnitude :=
    if field = 0xFF then
      if fraction = 0 then 0x7FF * Nat.pow 2 52
      else 0x7FF * Nat.pow 2 52 + (Nat.pow 2 51 ||| fraction * Nat.pow 2 29)
    else if field ≠ 0 then (field + 896) * Nat.pow 2 52 + fraction * Nat.pow 2 29
    else if fraction = 0 then 0
    else
      let top := fraction.log2
      (top + 874) * Nat.pow 2 52 + (fraction - Nat.pow 2 top) * Nat.pow 2 (52 - top)
  ⟨UInt64.ofNat (sign + magnitude)⟩

/-- Whether infinity is the nearest value of `m * 10 ^ q`. That is so from the middle between the
greatest finite value and the power of two behind it on. -/
def overflows (m : Nat) (q : Int) : Bool :=
  let middle := (Nat.pow 2 54 - 1) * Nat.pow 2 970
  if m = 0 then false
  else if 0 ≤ q then 308 < q || middle ≤ m * Nat.pow 10 q.toNat
  -- the first test holds of all `m` from `10 ^ (-q)` on, and keeps the power small
  else (-q).toNat * 3 ≤ m.log2 && middle * Nat.pow 10 (-q).toNat ≤ m

example : narrow ⟨0x3FF8000000000000⟩ = 0x3FC00000 := by decide +kernel
example : narrow ⟨0x47EFFFFFF0000000⟩ = 0x7F800000 := by decide +kernel
example : widen 0x00000001 = ⟨0x36A0000000000000⟩ := by decide +kernel
example : overflows 17976931348623158 292 = false := by decide +kernel
example : overflows 17976931348623159 292 = true := by decide +kernel

end Binary64

end QueryClauses
