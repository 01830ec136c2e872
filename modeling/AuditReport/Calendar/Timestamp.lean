import AuditReport.Calendar.Moment
import AuditReport.Number.Reading

/-! Moments as numbers: seconds before or after the start of 1970, or milliseconds where there are
too many for seconds. -/

namespace AuditReport.Calendar

/-- What is read of a moment. A moment of the year before the first supported one can be read, but
it is none. -/
inductive MomentReading where
  | moment (t : Moment)
  | yearZero
  deriving DecidableEq, Repr

namespace Timestamp

/-- The seconds from the start of year 1 to the start of 1970. -/
def epoch : Int := 62135596800

/-- The seconds from the start of year 0 to the start of 1970. -/
def earliest : Int := 62167219200

/-- The seconds from the start of 1970 to the end of year 9999. -/
def latest : Int := 253402300799

/-- Counts of greater magnitude are milliseconds. -/
def watershed : Nat := 20000000000

/-- Seconds and microseconds of a count. -/
def split (n : Int) : Int × Nat :=
  if n.natAbs ≤ watershed then (n, 0) else (n.fdiv 1000, (n.fmod 1000).toNat * 1000)

/-- The moment of a count and some microseconds on the clock that shows universal time, if it is in
the years 0 to 9999. -/
def ofCount (n : Int) (micros : Nat) : Option MomentReading :=
  let (seconds, extra) := split n
  let total := micros + extra
  let seconds := seconds + (total / second : Nat)
  if -earliest ≤ seconds ∧ seconds ≤ latest then
    let reading := (seconds + epoch) * second + (total % second : Nat)
    match Moment.ofReading? reading with
    | some t => some (.moment { t with offset := some Offset.universal })
    | none => some .yearZero
  else none

/-- A fraction of a second as whole microseconds. -/
def toMicros (fraction : Float) : Nat := (fraction * 1000000.0).round.toUInt64.toNat

/-- The moment of a fractional count. The fraction counts from zero, not from the whole count
below. -/
def ofFloat (x : Float) : Option MomentReading :=
  (Number.toInt? x.floor).bind fun n =>
    ofCount n (toMicros (if x < 0.0 then x.ceil - x else x - x.floor))

/-- The moment of a fractional count whose fraction counts from the whole count below. -/
def ofDecimal (x : Float) : Option MomentReading :=
  let x := if x.abs > Float.ofNat watershed then x / 1000.0 else x
  (Number.toInt? x.floor).bind fun n => ofCount n (toMicros (x - x.floor))

/-- Reads a count: an optional sign, ASCII digits that make a word of 64 bits, and perhaps a point
and a fraction. -/
def read (cs : List Char) : Option MomentReading :=
  let (negative, body) := Number.takeSign cs
  let whole := body.takeWhile Text.isAsciiDigit
  let n : Int := Number.ofDigits (whole.filterMap Text.asciiDigit?)
  let n := if negative then -n else n
  if whole.isEmpty || !Number.isWord n then none
  else match body.dropWhile Text.isAsciiDigit with
    | [] => ofCount n 0
    | '.' :: fraction =>
      if fraction.all Text.isAsciiDigit then
        (Number.readDecimal? (Text.asciiDigit? ·) body).bind fun x =>
          ofDecimal (if negative then -x else x)
      else none
    | _ => none

end Timestamp

end AuditReport.Calendar
