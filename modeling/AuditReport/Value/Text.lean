import AuditReport.Number.Decimal
import AuditReport.Number.Reading
import AuditReport.Text.Character
import AuditReport.Text.Surrogate
import AuditReport.Value

/-! The text of values: as themselves where they stand alone, quoted where they stand inside a list
or an object. -/

namespace AuditReport

namespace Text

/-- The quote for a text: double quotes only where they spare an escape. -/
def quoteFor (cs : List Char) : Char :=
  if cs.contains '\'' && !cs.contains '"' then '"' else '\''

/-- A backslash and hexadecimal digits: two, four or eight as the character needs. -/
def hexEscape (c : Char) : List Char :=
  let n := (Surrogate.unit? c).getD c.toNat
  if n < 0x100 then ['\\', 'x'] ++ Hex.digits 2 n
  else if n < 0x10000 then ['\\', 'u'] ++ Hex.digits 4 n
  else ['\\', 'U'] ++ Hex.digits 8 n

/-- A character between `quote`s. Characters for which `visible` fails are escaped. -/
def quotedChar (visible : Char → Bool) (quote c : Char) : List Char :=
  if c = quote ∨ c = '\\' then ['\\', c]
  else if c = '\n' then ['\\', 'n']
  else if c = '\r' then ['\\', 'r']
  else if c = '\t' then ['\\', 't']
  else if visible c then [c]
  else hexEscape c

/-- A text between quotes. -/
def quotedBy (visible : Char → Bool) (cs : List Char) : String :=
  let quote := quoteFor cs
  String.ofList (quote :: cs.flatMap (quotedChar visible quote) ++ [quote])

/-- A text between quotes, visible characters as themselves. -/
def quoted (s : String) : String := quotedBy isVisible s.toList

/-- Bytes between quotes, the visible ASCII characters as themselves. -/
def quotedBytes (bs : List UInt8) : String :=
  "b" ++ quotedBy (fun c => 0x20 ≤ c.toNat && c.toNat < 0x7F) (bs.map fun b => Char.ofNat b.toNat)

end Text

namespace Calendar

/-- A span of time by its days, seconds and microseconds, each named unless zero; only the days can
be negative. -/
def spanText (micros : Int) : String :=
  let days := micros.fdiv 86400000000
  let rest := micros.fmod 86400000000
  let parts := [("days", days), ("seconds", rest / 1000000), ("microseconds", rest % 1000000)]
  let shown := (parts.filter (·.2 != 0)).map fun p => p.1 ++ "=" ++ toString p.2
  "datetime.timedelta(" ++ (if shown.isEmpty then "0" else ", ".intercalate shown) ++ ")"

/-- A moment by its parts: seconds and microseconds only where they or a later part are not
zero. -/
def Moment.partsText (t : Moment) : String :=
  let tail := if t.fraction ≠ 0 then [t.second, t.fraction] else if t.second ≠ 0 then [t.second] else []
  let numbers := [t.day.year, t.day.month, t.day.day, t.hour, t.minute] ++ tail
  let zone := match t.offset with
    | none => []
    | some o =>
      if o.micros = 0 then ["tzinfo=datetime.timezone.utc"]
      else ["tzinfo=datetime.timezone(" ++ spanText o.micros ++ ")"]
  "datetime.datetime(" ++ ", ".intercalate (numbers.map toString ++ zone) ++ ")"

/-- A day by its parts. -/
def Day.partsText (d : Day) : String :=
  "datetime.date(" ++ ", ".intercalate ([d.year, d.month, d.day].map toString) ++ ")"

end Calendar

namespace Value

mutual

/-- The text of a value inside a list or an object. -/
def quoted : Value → String
  | null => "None"
  | bool true => "True"
  | bool false => "False"
  | int n => toString n
  | float x => Number.floatText x
  | text s => Text.quoted s
  | moment t => t.partsText
  | day d => d.partsText
  | id i => "ObjectId('" ++ i.text ++ "')"
  | bytes bs => Text.quotedBytes bs
  | list xs => "[" ++ quotedItems xs ++ "]"
  | object fs => "\x7b" ++ quotedFields fs ++ "\x7d"

/-- The items of a list, separated by commas. -/
def quotedItems : List Value → String
  | [] => ""
  | [x] => quoted x
  | x :: y :: rest => quoted x ++ ", " ++ quotedItems (y :: rest)

/-- The fields of an object, separated by commas. -/
def quotedFields : List (String × Value) → String
  | [] => ""
  | [(k, v)] => Text.quoted k ++ ": " ++ quoted v
  | (k, v) :: f :: rest => Text.quoted k ++ ": " ++ quoted v ++ ", " ++ quotedFields (f :: rest)

end

/-- The text of a value that stands alone: texts, identities, days and moments as themselves. This
is the text of any value, however long its integers are. It serves for values from the store, whose
integers have 64 bits, and for parts of bodies, whose integers were read from texts; the values that
a request compares with have a text as far as `shown?` gives one. -/
def shown : Value → String
  | text s => s
  | id i => i.text
  | moment t => t.text
  | day d => d.text
  | v => quoted v

mutual

/-- Every integer in the value has few enough digits to be printed. -/
def isPrintable : Value → Bool
  | int n => Number.isPrintable n
  | list items => itemsPrintable items
  | object fields => fieldsPrintable fields
  | _ => true

@[inherit_doc isPrintable]
def itemsPrintable : List Value → Bool
  | [] => true
  | v :: rest => isPrintable v && itemsPrintable rest

@[inherit_doc isPrintable]
def fieldsPrintable : List (String × Value) → Bool
  | [] => true
  | (_, v) :: rest => isPrintable v && fieldsPrintable rest

end

/-- The text of a value that stands alone, unless an integer in it is too long to be printed. -/
def shown? (v : Value) : Option String := if v.isPrintable then some v.shown else none

end Value

end AuditReport
