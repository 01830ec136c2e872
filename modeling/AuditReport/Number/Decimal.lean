import AuditReport.Number.Binary

/-! Decimal text of doubles: the fewest digits that read back as the same double, and rounding to
a given count of significant digits. -/

namespace AuditReport.Number

/-- A positive decimal number: its significant digits without zeros at the end, the first of them
standing at `10 ^ exponent`. -/
structure Decimal where
  digits : List Nat
  exponent : Int
  deriving DecidableEq, Repr

/-- `num / den` is at least `10 ^ k`. -/
def atLeastPower (num den : Nat) (k : Int) : Bool :=
  if 0 ≤ k then den * Nat.pow 10 k.toNat ≤ num else den ≤ num * Nat.pow 10 (-k).toNat

/-- The decimal exponent of a positive quotient: the greatest `k` with `10 ^ k ≤ num / den`. The
estimate from the count of binary digits is at most two too small. -/
def decimalExponent (num den : Nat) : Int :=
  let low := ((Nat.log2 num : Int) - Nat.log2 den - 1) * 30103 / 100000 - 1
  if atLeastPower num den (low + 2) then low + 2
  else if atLeastPower num den (low + 1) then low + 1
  else low

/-- `num / den` in units of `10 ^ k`, as a quotient. -/
def inUnits (num den : Nat) (k : Int) : Nat × Nat :=
  if 0 ≤ k then (num, den * Nat.pow 10 k.toNat) else (num * Nat.pow 10 (-k).toNat, den)

/-- Decimal digits of a number, most significant first. -/
def digitsOf (n : Nat) : List Nat :=
  (Nat.toDigits 10 n).map fun c => c.toNat - 48

/-- Removes the zeros at the end, the first digit excepted. -/
def dropTrailingZeros (ds : List Nat) : List Nat :=
  match (ds.reverse.dropWhile (· == 0)).reverse with
  | [] => ds.take 1
  | kept => kept

/-- The decimal `n * 10 ^ k`, for a positive `n`. -/
def Decimal.ofUnits (n : Nat) (k : Int) : Decimal :=
  let ds := digitsOf n
  ⟨dropTrailingZeros ds, k + ds.length - 1⟩

/-- The interval of reals that read as `m * 2 ^ e`, in quarters of `2 ^ e`. Its ends belong to it
when `m` is even. Below a power of two the neighbour is half as far. -/
def readingInterval (m : Nat) (e : Int) : Nat × Nat :=
  (if m = hiddenBit ∧ leastExponent < e then 4 * m - 1 else 4 * m - 2, 4 * m + 2)

/-- The point `n * 10 ^ k` reads as `m * 2 ^ e`. -/
def readsAs (m : Nat) (e : Int) (n : Nat) (k : Int) : Bool :=
  let (low, high) := readingInterval m e
  let (lowNum, lowDen) := let r := ratio low (e - 2); inUnits r.1 r.2 k
  let (highNum, highDen) := let r := ratio high (e - 2); inUnits r.1 r.2 k
  if m % 2 = 0 then lowNum ≤ n * lowDen && n * highDen ≤ highNum
  else lowNum < n * lowDen && n * highDen < highNum

/-- Of the two points of the grid `10 ^ k` beside `m * 2 ^ e`, the nearer that reads back; of two
equally near, the even one. -/
def nearestOnGrid? (m : Nat) (e k : Int) : Option Nat :=
  let (num, den) := let r := ratio m e; inUnits r.1 r.2 k
  let below := num / den
  let rest := num % den
  let down := 2 * rest < den || (2 * rest == den && below % 2 == 0)
  let (first, second) := if down then (below, below + 1) else (below + 1, below)
  if 0 < first ∧ readsAs m e first k then some first
  else if 0 < second ∧ readsAs m e second k then some second
  else none

/-- The fewest digits that read back as the positive double `m * 2 ^ e`, and of those the nearest.
Seventeen digits always suffice. -/
def shortest (m : Nat) (e : Int) : Decimal :=
  let r := ratio m e
  let top := decimalExponent r.1 r.2
  let grids := (List.range 17).map fun (n : Nat) => top - n
  match grids.findSome? fun k => (nearestOnGrid? m e k).map (Decimal.ofUnits · k) with
  | some d => d
  | none => ⟨[0], 0⟩

/-- The quotient rounded to a whole number, a half to the even neighbour. -/
def roundDiv (num den : Nat) : Nat :=
  let q := num / den
  let r := num % den
  if 2 * r < den then q
  else if den < 2 * r then q + 1
  else if q % 2 = 0 then q else q + 1

/-- The positive number `m * 2 ^ e` rounded to `count` significant digits. -/
def significant (count m : Nat) (e : Int) : Decimal :=
  let r := ratio m e
  let k := decimalExponent r.1 r.2 - ((count : Int) - 1)
  let u := inUnits r.1 r.2 k
  Decimal.ofUnits (roundDiv u.1 u.2) k

/-- How a decimal is laid out: up to which exponent positionally, and whether a whole number keeps
a zero after the point. -/
structure Layout where
  /-- Positional notation is used for exponents from -4 to below this one. -/
  exponentLimit : Int
  /-- A whole number ends in `.0`. -/
  wholeMark : Bool

/-- The text of one decimal digit. -/
def digitChar (d : Nat) : Char := Char.ofNat (48 + d)

/-- The text of a decimal exponent: a sign and at least two digits. -/
def exponentText (k : Int) : List Char :=
  let ds := Nat.toDigits 10 k.natAbs
  'e' :: (if k < 0 then '-' else '+') :: (if ds.length < 2 then '0' :: ds else ds)

/-- The text of a positive decimal. -/
def Decimal.text (layout : Layout) (d : Decimal) : List Char :=
  let cs := d.digits.map digitChar
  if d.exponent < -4 ∨ layout.exponentLimit ≤ d.exponent then
    let fraction := cs.drop 1
    cs.take 1 ++ (if fraction.isEmpty then [] else '.' :: fraction) ++ exponentText d.exponent
  else if d.exponent < 0 then
    ['0', '.'] ++ List.replicate (-d.exponent - 1).toNat '0' ++ cs
  else
    let width := d.exponent.toNat + 1
    let whole := cs.take width ++ List.replicate (width - cs.length) '0'
    let fraction := cs.drop width
    if fraction.isEmpty then whole ++ (if layout.wholeMark then ['.', '0'] else [])
    else whole ++ '.' :: fraction

/-- Doubles are shown positionally below `10 ^ 16`, and a whole number ends in `.0`. -/
def shownLayout : Layout := ⟨16, true⟩

/-- The text of a double by its fewest digits. -/
def floatText (x : Float) : String :=
  match Binary.ofFloat x with
  | .notANumber => "nan"
  | .infinite negative => if negative then "-inf" else "inf"
  | .finite negative m e =>
    let body := if m = 0 then ['0', '.', '0'] else (shortest m e).text shownLayout
    String.ofList (if negative then '-' :: body else body)

/-- The text of a double rounded to `count` significant digits, whole numbers without a point. -/
def significantText (count : Nat) (x : Float) : String :=
  match Binary.ofFloat x with
  | .notANumber => "nan"
  | .infinite negative => if negative then "-inf" else "inf"
  | .finite negative m e =>
    let body := if m = 0 then ['0'] else (significant count m e).text ⟨count, false⟩
    String.ofList (if negative then '-' :: body else body)

end AuditReport.Number
