import AuditReport.Calendar.Iso
import AuditReport.Calendar.Timestamp

/-! Reading a moment from text of the stricter kind: a day with hyphens, then perhaps a separator
(`T`, a space or an underscore) and a time with colons. A day alone is its start. -/

namespace AuditReport.Calendar.Strict

/-- Two ASCII digits below `limit`. -/
def twoDigits (limit : Nat) (cs : List Char) : Option (Nat × List Char) :=
  (Iso.takeNumber 2 cs).filter (·.1 < limit)

/-- Seconds and a fraction of them, if they follow, the fraction cut to microseconds. -/
def secondsPart : List Char → Option (Nat × Nat × List Char)
  | ':' :: rest => do
    let (second, rest) ← twoDigits 60 rest
    match rest with
    | c :: more =>
      if c = '.' ∨ c = ',' then
        let digits := (more.takeWhile Text.isAsciiDigit).filterMap Text.asciiDigit?
        if digits.isEmpty then none
        else
          let kept := digits.take 6
          return (second, Number.ofDigits kept * Nat.pow 10 (6 - kept.length),
            more.dropWhile Text.isAsciiDigit)
      else return (second, 0, rest)
    | [] => return (second, 0, rest)
  | rest => some (0, 0, rest)

/-- The offset at the end of a moment's text: the letter `Z`, or a sign, hours and minutes. -/
def offsetPart : List Char → Option (Option Offset)
  | [] => some none
  | ['Z'] | ['z'] => some (some Offset.universal)
  | sign :: rest => do
    if sign ≠ '+' ∧ sign ≠ '-' ∧ sign ≠ '\u2212' then none
    let (hours, rest) ← twoDigits 24 rest
    let (minutes, rest) ← twoDigits 60 (if rest.head? = some ':' then rest.drop 1 else rest)
    if !rest.isEmpty then none
    let n : Int := (hours * 60 + minutes) * (60 * 1000000)
    return (← Offset.ofMicros? (if sign = '+' then n else -n))

/-- A time behind a day. -/
def timePart (day : Day) : List Char → Option Moment
  | [] => some (Moment.ofDay day)
  | separator :: rest => do
    if ['T', 't', ' ', '_'].contains separator then
      let (hour, rest) ← twoDigits 24 rest
      let rest ← if rest.head? = some ':' then some (rest.drop 1) else none
      let (minute, rest) ← twoDigits 60 rest
      let (second, fraction, rest) ← secondsPart rest
      Moment.ofParts? day hour minute second fraction (← offsetPart rest)
    else none

/-- Reads a moment by its parts. A day of year 0 has to be one of its leap year. -/
def readParts (cs : List Char) : Option MomentReading := do
  let (year, rest) ← Iso.takeNumber 4 cs
  let rest ← if rest.head? = some '-' then some (rest.drop 1) else none
  let (month, rest) ← Iso.takeNumber 2 rest
  let rest ← if rest.head? = some '-' then some (rest.drop 1) else none
  let (day, rest) ← Iso.takeNumber 2 rest
  let day ← Day.ofParts? (if year = 0 then 400 else year) month day
  let t ← timePart day rest
  return if year = 0 then .yearZero else .moment t

/-- Reads a moment: by its parts, or else as a count of seconds. -/
def read (cs : List Char) : Option MomentReading := (readParts cs).or (Timestamp.read cs)

end AuditReport.Calendar.Strict
