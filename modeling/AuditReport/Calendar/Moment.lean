import AuditReport.Calendar.Day

/-! Points in time: a calendar day, a time of day in microseconds and, if known, the offset of the
clock from universal time. -/

namespace AuditReport.Calendar

/-- Microseconds of a second, a minute, an hour and a day. -/
def second : Nat := 1000000

@[inherit_doc second] def minute : Nat := 60 * second

@[inherit_doc second] def hour : Nat := 60 * minute

@[inherit_doc second] def dayLength : Nat := 24 * hour

/-- How far a clock is ahead of universal time: less than a day either way. -/
structure Offset where
  micros : Int
  lower : -86400000000 < micros
  upper : micros < 86400000000
  deriving DecidableEq, Repr

/-- The offset of `n` microseconds, if it is less than a day. -/
def Offset.ofMicros? (n : Int) : Option Offset :=
  if h : -86400000000 < n ∧ n < 86400000000 then some ⟨n, h.1, h.2⟩ else none

/-- The clock that shows universal time. -/
def Offset.universal : Offset := ⟨0, by decide, by decide⟩

/-- A day and a time of day. Without an offset it is a clock reading whose zone is not recorded. -/
structure Moment where
  day : Day
  micros : Nat
  micros_lt : micros < 86400000000
  offset : Option Offset
  deriving DecidableEq, Repr

namespace Moment

/-- The start of a day. -/
def ofDay (d : Day) : Moment := ⟨d, 0, by decide, none⟩

/-- Hour of the day. -/
def hour (t : Moment) : Nat := t.micros / Calendar.hour

/-- Minute of the hour. -/
def minute (t : Moment) : Nat := t.micros / Calendar.minute % 60

/-- Second of the minute. -/
def second (t : Moment) : Nat := t.micros / Calendar.second % 60

/-- Microsecond of the second. -/
def fraction (t : Moment) : Nat := t.micros % Calendar.second

/-- The moment with these parts, if they are in range. -/
def ofParts? (day : Day) (hour minute second fraction : Nat) (offset : Option Offset) :
    Option Moment :=
  if hour < 24 ∧ minute < 60 ∧ second < 60 ∧ fraction < 1000000 then
    let n := hour * Calendar.hour + minute * Calendar.minute + second * Calendar.second + fraction
    if h : n < 86400000000 then some ⟨day, n, h, offset⟩ else none
  else none

/-- Microseconds from the start of year 1 to the clock reading, its offset left aside. -/
def reading (t : Moment) : Nat := t.day.ordinal * dayLength + t.micros

/-- The clock reading `n` microseconds after the start of year 1, up to the end of year 9999. -/
def ofReading? (n : Int) : Option Moment :=
  if n < 0 then none
  else
    (Day.ofOrdinal? (n.toNat / 86400000000)).map fun day =>
      ⟨day, n.toNat % 86400000000, Nat.mod_lt _ (by decide), none⟩

/-- Microseconds from the start of year 1 in universal time, for a moment with an offset. -/
def instant? (t : Moment) : Option Int :=
  t.offset.map fun o => (t.reading : Int) - o.micros

/-- The same instant on the clock that shows universal time, with the offset then left out. A
moment without an offset stays as it is. There is none for an instant outside the years 1 to
9999. -/
def universal? (t : Moment) : Option Moment :=
  match t.instant? with
  | none => some t
  | some n => ofReading? n

/-- The clock reading `n` microseconds later or earlier, if it stays in the years 1 to 9999. -/
def shift? (t : Moment) (n : Int) : Option Moment :=
  (ofReading? (t.reading + n)).map fun u => { u with offset := t.offset }

/-- `n` with at least `width` digits. -/
def padded (width n : Nat) : String := String.ofList ((Nat.toDigits 10 n).leftpad width '0')

/-- A fraction of a second with six digits, left out when zero. -/
def fractionText (n : Nat) : String :=
  if n = 0 then "" else "." ++ padded 6 n

/-- An offset as sign, hours and minutes, with seconds and their fraction where they are not
zero. -/
def offsetText (o : Offset) : String :=
  let n := o.micros.natAbs
  let seconds := n / Calendar.second % 60
  let fraction := n % Calendar.second
  (if o.micros < 0 then "-" else "+") ++ padded 2 (n / Calendar.hour) ++ ":" ++
    padded 2 (n / Calendar.minute % 60) ++
    (if seconds = 0 ∧ fraction = 0 then "" else ":" ++ padded 2 seconds ++ fractionText fraction)

/-- Hours, minutes, seconds and the fraction unless it is zero. -/
def clockText (t : Moment) : String :=
  padded 2 t.hour ++ ":" ++ padded 2 t.minute ++ ":" ++ padded 2 t.second ++ fractionText t.fraction

/-- Day and time joined by `separator`, then the offset if there is one. -/
def textWith (separator : String) (t : Moment) : String :=
  t.day.text ++ separator ++ t.clockText ++ (t.offset.map offsetText).getD ""

/-- The text people read: a space between day and time. -/
def text (t : Moment) : String := t.textWith " "

/-- The text machines read: the letter `T` between day and time. -/
def isoText (t : Moment) : String := t.textWith "T"

end Moment

end AuditReport.Calendar
