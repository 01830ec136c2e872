/-! Days of the proleptic Gregorian calendar in the years 1 to 9999, and their count from the first
day of year 1. -/

namespace AuditReport.Calendar

/-- A leap year is divisible by four and not by a hundred, or divisible by four hundred. -/
def isLeap (year : Nat) : Bool :=
  year % 4 == 0 && (year % 100 != 0 || year % 400 == 0)

/-- The lengths of the months of a year, in order. -/
def monthLengths (year : Nat) : List Nat :=
  [31, if isLeap year then 29 else 28, 31, 30, 31, 30, 31, 31, 30, 31, 30, 31]

/-- The days of a month, the months counted from one. -/
def daysInMonth (year month : Nat) : Nat :=
  match month with
  | 0 => 0
  | m + 1 => ((monthLengths year)[m]?).getD 0

/-- Year, month and day name a day of the supported years. -/
abbrev ValidDay (year month day : Nat) : Prop :=
  1 ≤ year ∧ year ≤ 9999 ∧ 1 ≤ month ∧ month ≤ 12 ∧ 1 ≤ day ∧ day ≤ daysInMonth year month

/-- A calendar day. -/
structure Day where
  year : Nat
  month : Nat
  day : Nat
  valid : ValidDay year month day
  deriving DecidableEq, Repr

namespace Day

/-- The day with these parts, if there is one. -/
def ofParts? (year month day : Nat) : Option Day :=
  if h : ValidDay year month day then some ⟨year, month, day, h⟩ else none

/-- The days of the years before `year`. -/
def daysBeforeYear (year : Nat) : Nat :=
  let y := year - 1
  y * 365 + y / 4 - y / 100 + y / 400

/-- The days of a year before one of its months. -/
def daysBeforeMonth (year month : Nat) : Nat := ((monthLengths year).take (month - 1)).foldr (· + ·) 0

/-- The count of days from the first day of year 1 up to this day. -/
def ordinal (d : Day) : Nat :=
  daysBeforeYear d.year + daysBeforeMonth d.year d.month + (d.day - 1)

/-- The year that holds the day with count `n`, and the days of that year before it: cycles of 400,
100, 4 and 1 years are taken off in turn, the last year of a cycle keeping its leap day. -/
def yearOfOrdinal (n : Nat) : Nat × Nat :=
  let eras := n / 146097
  let n := n % 146097
  let centuries := min (n / 36524) 3
  let n := n - centuries * 36524
  let cycles := n / 1461
  let n := n % 1461
  let years := min (n / 365) 3
  (eras * 400 + centuries * 100 + cycles * 4 + years + 1, n - years * 365)

/-- The month that holds the `n`-th day of a year, counted with the day in it, given the lengths of
the months from `month` on. -/
def monthOfOrdinal (month : Nat) : List Nat → Nat → Nat × Nat
  | [], n => (month, n + 1)
  | length :: rest, n => if n < length then (month, n + 1) else monthOfOrdinal (month + 1) rest (n - length)

/-- The day with count `n`, up to the last day of year 9999. -/
def ofOrdinal? (n : Nat) : Option Day :=
  let (year, rest) := yearOfOrdinal n
  let (month, day) := monthOfOrdinal 1 (monthLengths year) rest
  ofParts? year month day

/-- The first Monday's week of a year: the count of the Monday of the week that holds the year's
first Thursday. -/
def firstWeek (year : Nat) : Int :=
  let first := daysBeforeYear year
  let weekday := first % 7
  (first : Int) - weekday + (if 3 < weekday then 7 else 0)

/-- A year of weeks has a fifty-third week if it starts on a Thursday, or on a Wednesday when it is
a leap year. -/
def hasLongYear (year : Nat) : Bool :=
  let weekday := daysBeforeYear year % 7
  weekday == 3 || (weekday == 2 && isLeap year)

/-- The day of a week date, the days of the week counted from Monday as 1. -/
def ofWeek? (year week weekday : Nat) : Option Day :=
  if 1 ≤ year ∧ 1 ≤ week ∧ (week ≤ 52 ∨ (week = 53 ∧ hasLongYear year)) ∧ 1 ≤ weekday ∧ weekday ≤ 7 then
    let n := firstWeek year + (week - 1 : Nat) * 7 + (weekday - 1 : Nat)
    if 0 ≤ n then ofOrdinal? n.toNat else none
  else none

/-- Year, month and day with four, two and two digits. -/
def text (d : Day) : String :=
  let pad (width n : Nat) : String := String.ofList (((Nat.toDigits 10 n).leftpad width '0'))
  pad 4 d.year ++ "-" ++ pad 2 d.month ++ "-" ++ pad 2 d.day

end Day

end AuditReport.Calendar
