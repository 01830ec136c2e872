import AuditReport.Number.Binary

/-! Numbers as given: whole numbers of any size, and doubles. Whole numbers are added and compared
exactly; a sum with a double is a double, and a whole number too large for one has no such sum. -/

namespace AuditReport.Number

/-- A whole number or a double. -/
inductive Quantity where
  | whole (n : Int)
  | double (x : Float)
  deriving Repr

namespace Quantity

/-- Exact order of two numbers; there is none with not-a-number. -/
def compare? : Quantity → Quantity → Option Ordering
  | whole m, whole n => some (compare m n)
  | whole m, double y => compareIntFloat m y
  | double x, whole n => (compareIntFloat n x).map Ordering.swap
  | double x, double y =>
    if x < y then some .lt else if x == y then some .eq else if y < x then some .gt else none

/-- At most; false with not-a-number. -/
def le (a b : Quantity) : Bool :=
  match compare? a b with
  | some .lt | some .eq => true
  | _ => false

/-- The number as a double, unless it is too large for one. -/
def toFloat? : Quantity → Option Float
  | whole n => ofInt? n
  | double x => some x

/-- The sum, unless a whole number in it is too large to be added to a double. -/
def add? : Quantity → Quantity → Option Quantity
  | whole m, whole n => some (whole (m + n))
  | a, b => do return double ((← a.toFloat?) + (← b.toFloat?))

instance (n : Nat) : OfNat Quantity n := ⟨whole n⟩
instance : LE Quantity := ⟨fun a b => le a b = true⟩
instance : LT Quantity := ⟨fun a b => compare? a b = some .lt⟩
instance : DecidableLE Quantity := fun a b => inferInstanceAs (Decidable (le a b = true))
instance : DecidableLT Quantity := fun a b => inferInstanceAs (Decidable (compare? a b = some .lt))

end Quantity

end AuditReport.Number
