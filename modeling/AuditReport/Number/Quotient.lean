import AuditReport.Number.Decimal

/-! Quotients of whole numbers as doubles, and what they come to when rounded up. -/

namespace AuditReport.Number

/-- The number of binary digits that a double keeps. -/
def precision : Nat := 53

/-- Numerator and denominator of `num / den / 2 ^ e`. -/
def inBinaryUnits (num den : Nat) (e : Int) : Nat × Nat :=
  if 0 ≤ e then (num, den * Nat.pow 2 e.toNat) else (num * Nat.pow 2 (-e).toNat, den)

/-- The exponent of the unit in which the quotient of two positive numbers has exactly `precision`
binary digits before the point. -/
def quotientExponent (num den : Nat) : Int :=
  let e : Int := (num.log2 : Int) - den.log2 - (precision - 1)
  let units := inBinaryUnits num den e
  if units.1 < units.2 * hiddenBit then e - 1 else e

/-- The double nearest to the quotient of two positive numbers, as `(m, e)` for `m * 2 ^ e`. -/
def nearestQuotient (num den : Nat) : Nat × Int :=
  let e := quotientExponent num den
  let units := inBinaryUnits num den e
  (roundDiv units.1 units.2, e)

/-- No finite double is as large as this. -/
def doubleBound : Nat := Nat.pow 2 1024

/-- The double nearest to `num / den`, rounded up (or down, for `up = false`) to a whole number;
`none` if the quotient is too large for a double. -/
def roundedQuotient (up : Bool) (num den : Nat) : Option Nat :=
  if num = 0 then some 0
  else
    let nearest := nearestQuotient num den
    let r := ratio nearest.1 nearest.2
    let whole := if up then (r.1 + r.2 - 1) / r.2 else r.1 / r.2
    if r.1 < doubleBound * r.2 then some whole else none

/-- The quotient of an integer by a positive number, as a double and then rounded up. -/
def ceilQuotient (num : Int) (den : Nat) : Option Int :=
  if 0 ≤ num then (roundedQuotient true num.natAbs den).map Int.ofNat
  else (roundedQuotient false num.natAbs den).map fun n => -Int.ofNat n

end AuditReport.Number
