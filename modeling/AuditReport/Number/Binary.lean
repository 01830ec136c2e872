import AuditReport.Number.Word

/-! A double taken apart: its sign, and the integers `m` and `e` with magnitude `m * 2 ^ e`. What
has to be exact about doubles (order against integers, shortest text) is decided on these. -/

namespace AuditReport.Number

/-- The exact meaning of a double. -/
inductive Binary where
  | notANumber
  | infinite (negative : Bool)
  /-- The number `± mantissa * 2 ^ exponent`; zero keeps its sign. -/
  | finite (negative : Bool) (mantissa : Nat) (exponent : Int)
  deriving DecidableEq, Repr

/-- The least exponent of a double, shared by the subnormal numbers. -/
def leastExponent : Int := -1074

/-- The mantissa of the least normal number of each binade: two to the power of 52. -/
def hiddenBit : Nat := 0x10000000000000

/-- Reads the sign, the eleven exponent bits and the fifty-two fraction bits. -/
def Binary.ofFloat (x : Float) : Binary :=
  let bits := x.toBits.toNat
  let negative := decide (wordBound ≤ bits)
  let biased := bits / hiddenBit % 2048
  let fraction := bits % hiddenBit
  if biased = 2047 then
    if fraction = 0 then .infinite negative else .notANumber
  else if biased = 0 then .finite negative fraction leastExponent
  else .finite negative (hiddenBit + fraction) ((biased : Int) - 1 + leastExponent)

/-- A finite double. -/
def isFinite (x : Float) : Bool :=
  match Binary.ofFloat x with
  | .finite .. => true
  | _ => false

/-- Numerator and denominator of `m * 2 ^ e`. -/
def ratio (m : Nat) (e : Int) : Nat × Nat :=
  if 0 ≤ e then (m * Nat.pow 2 e.toNat, 1) else (m, Nat.pow 2 (-e).toNat)

/-- Order of an integer against a double; `none` against not-a-number. -/
def compareIntFloat (n : Int) (x : Float) : Option Ordering :=
  match Binary.ofFloat x with
  | .notANumber => none
  | .infinite negative => some (if negative then .gt else .lt)
  | .finite negative m e =>
    let (num, den) := ratio m e
    let signed : Int := if negative then -num else num
    some (compare (n * den) signed)

/-- The integer that a double equals, if it is one. -/
def toInt? (x : Float) : Option Int :=
  match Binary.ofFloat x with
  | .finite negative m e =>
    let (num, den) := ratio m e
    if num % den = 0 then
      let n : Int := (num / den : Nat)
      some (if negative then -n else n)
    else none
  | _ => none

/-- The double nearest to an integer, unless the integer is too large for any finite double. -/
def ofInt? (n : Int) : Option Float :=
  let x := Float.ofInt n
  if isFinite x then some x else none

end AuditReport.Number
