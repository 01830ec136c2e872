import AuditReport.Calendar.Moment
import AuditReport.Text.Character

/-! Reading a moment from ISO 8601 text.

The day is in calendar or week form, with or without hyphens. One character of any kind separates
it from the time, whose parts have two digits each, with or without colons, and a fraction after a
point or comma that is cut to microseconds. An offset starts at the first plus, minus or capital
`Z`. One more ASCII character may stand between the time and its offset, and so may anything that
follows six digits of a fraction. A null character ends the text. -/

namespace AuditReport.Calendar.Iso

/-- The number formed by exactly `count` ASCII digits, and the rest. -/
def takeNumber (count : Nat) (cs : List Char) : Option (Nat × List Char) :=
  let rec go : Nat → Nat → List Char → Option (Nat × List Char)
    | 0, n, cs => some (n, cs)
    | _ + 1, _, [] => none
    | count + 1, n, c :: cs => (Text.asciiDigit? c).bind fun d => go count (10 * n + d) cs
  go count 0 cs

/-- Where the time's separator stands, told from the characters that tell the forms of a day
apart. -/
def separatorIndex (cs : List Char) : Nat :=
  let digitAt (i : Nat) : Bool := (cs[i]?).any Text.isAsciiDigit
  if cs.length = 7 then 7
  else if cs[4]? = some '-' then
    if cs[5]? = some 'W' then
      if cs[8]? = some '-' then (if digitAt 10 then 8 else 10) else 8
    else 10
  else if cs[4]? = some 'W' then
    let digits := ((cs.drop 7).takeWhile Text.isAsciiDigit).length
    if digits < 2 then 7 + digits else if digits % 2 = 1 then 7 else 8
  else 8

/-- Reads a week date after the letter `W`. -/
def readWeek (year : Nat) (hyphens : Bool) (cs : List Char) : Option Day := do
  let (week, rest) ← takeNumber 2 cs
  if rest.isEmpty then Day.ofWeek? year week 1
  else
    let rest ← if hyphens then (if rest.head? = some '-' then some (rest.drop 1) else none) else some rest
    let (weekday, _) ← takeNumber 1 rest
    Day.ofWeek? year week weekday

/-- Reads a day. Either both hyphens stand or none. -/
def readDay (cs : List Char) : Option Day := do
  let (year, rest) ← takeNumber 4 cs
  let hyphens := rest.head? = some '-'
  let rest := if hyphens then rest.drop 1 else rest
  if rest.head? = some 'W' then readWeek year hyphens (rest.drop 1)
  else
    let (month, rest) ← takeNumber 2 rest
    let rest ← if hyphens then (if rest.head? = some '-' then some (rest.drop 1) else none) else some rest
    let (day, rest) ← takeNumber 2 rest
    if rest.isEmpty then Day.ofParts? year month day else none

/-- A time of day as read, not yet checked against its ranges. -/
structure Clock where
  hour : Nat
  minute : Nat
  second : Nat
  fraction : Nat
  /-- Nothing stands behind the last part. -/
  complete : Bool

/-- Reads the fraction of a second, at least one digit: six count, more are skipped. -/
def readFraction (cs : List Char) : Option (Nat × List Char) := do
  let count := min cs.length 6
  let (n, rest) ← takeNumber count cs
  return (n * Nat.pow 10 (6 - count), rest.dropWhile Text.isAsciiDigit)

/-- The text ends here. -/
def atEnd (cs : List Char) : Bool := cs.isEmpty || cs.head? = some '\x00'

/-- The clock with the given parts, last first, and fraction. -/
def Clock.ofParts (parts : List Nat) (fraction : Nat) (complete : Bool) : Clock :=
  match parts.reverse with
  | h :: m :: s :: _ => ⟨h, m, s, fraction, complete⟩
  | [h, m] => ⟨h, m, 0, fraction, complete⟩
  | [h] => ⟨h, 0, 0, fraction, complete⟩
  | [] => ⟨0, 0, 0, fraction, complete⟩

/-- Reads the fraction that ends a time with the given parts. -/
def readLast (parts : List Nat) (cs : List Char) : Option Clock :=
  (readFraction cs).map fun (fraction, rest) => Clock.ofParts parts fraction (atEnd rest)

/-- Reads at most `left` more parts of a time; the parts before them are in `parts`, last first.
`colons` says whether colons separate the parts, which shows after the first one. -/
def readParts (colons : Bool) : (left : Nat) → (parts : List Nat) → List Char → Option Clock
  | 0, parts, cs => readLast parts cs
  | left + 1, parts, cs =>
    match takeNumber 2 cs with
    | none => none
    | some (n, []) => some (Clock.ofParts (n :: parts) 0 true)
    | some (n, [c]) =>
      if c.toNat < 128 then some (Clock.ofParts (n :: parts) 0 (c = '\x00')) else none
    | some (n, c :: more) =>
      let colons := if parts.isEmpty then c = ':' else colons
      if c = '.' ∨ c = ',' then readLast (n :: parts) more
      else if !colons then readParts colons left (n :: parts) (c :: more)
      else if c = ':' then readParts colons left (n :: parts) more
      else none

/-- Reads a time: hours, then perhaps minutes, seconds and a fraction. -/
def readClock (cs : List Char) : Option Clock := readParts false 3 [] cs

/-- A character that starts an offset. -/
def startsOffset (c : Char) : Bool := c = '+' || c = '-' || c = 'Z'

/-- Reads what follows the time: an offset, which is universal time when its whole seconds are
zero. -/
def readOffset : List Char → Option Offset
  | 'Z' :: rest => if atEnd rest then some Offset.universal else none
  | sign :: rest => do
    let clock ← readClock rest
    if clock.complete then
      let seconds := clock.hour * 3600 + clock.minute * 60 + clock.second
      if seconds = 0 then some Offset.universal
      else
        let n : Int := (seconds * 1000000 + clock.fraction : Nat)
        Offset.ofMicros? (if sign = '-' then -n else n)
    else none
  | [] => none

/-- Reads a time of day and an optional offset. -/
def readTime (day : Day) (cs : List Char) : Option Moment := do
  let clock ← readClock (cs.takeWhile (!startsOffset ·))
  let zone := cs.dropWhile (!startsOffset ·)
  let offset ← if zone.isEmpty then (if clock.complete then some none else none)
    else (readOffset zone).map some
  Moment.ofParts? day clock.hour clock.minute clock.second clock.fraction offset

/-- Reads a moment. Without a time it is the start of the day. -/
def read (cs : List Char) : Option Moment := do
  let i := separatorIndex cs
  let day ← readDay (cs.take i)
  match cs.drop i with
  | [] => some (Moment.ofDay day)
  | _ :: time => readTime day time

end AuditReport.Calendar.Iso
