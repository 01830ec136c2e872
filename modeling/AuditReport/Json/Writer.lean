import AuditReport.Number.Decimal
import AuditReport.Text.Surrogate
import AuditReport.Value

/-! Writing JSON text: on one line or indented, in ASCII or with all characters as themselves. -/

namespace AuditReport.Json

/-- The two ways to write: over several lines with an indent, or on one line; in ASCII or not. -/
structure Style where
  /-- Blanks per level, over several lines; none puts all on one line without blanks. -/
  indent : Option Nat
  /-- Every character beyond ASCII is escaped. -/
  ascii : Bool

/-- All on one line, characters as themselves. -/
def compact : Style := ⟨none, false⟩

/-- All on one line, in ASCII. -/
def compactAscii : Style := ⟨none, true⟩

/-- Two blanks per level, in ASCII. -/
def indented : Style := ⟨some 2, true⟩

/-- A `\u` escape of a sixteen-bit unit. -/
def unitEscape (n : Nat) : List Char := '\\' :: 'u' :: Text.Hex.digits 4 n

/-- A character inside a string. -/
def writeChar (ascii : Bool) (c : Char) : List Char :=
  if c = '"' ∨ c = '\\' then ['\\', c]
  else if c = '\n' then ['\\', 'n']
  else if c = '\r' then ['\\', 'r']
  else if c = '\t' then ['\\', 't']
  else if c = '\x08' then ['\\', 'b']
  else if c = '\x0c' then ['\\', 'f']
  else
    let n := c.toNat
    if n < 0x20 then unitEscape n
    else if n < 0x7F ∨ !ascii then [c]
    else if n < 0x10000 then unitEscape n
    else match Text.Surrogate.unit? c with
      | some n => unitEscape n
      | none =>
        unitEscape (Text.Surrogate.least + (n - 0x10000) / 0x400) ++
          unitEscape (Text.Surrogate.leastSecond + (n - 0x10000) % 0x400)

/-- A string with its quotes. -/
def writeString (ascii : Bool) (s : String) : String :=
  String.ofList ('"' :: s.toList.flatMap (writeChar ascii) ++ ['"'])

/-- The number text of a double. -/
def writeFloat (x : Float) : String :=
  match Number.Binary.ofFloat x with
  | .notANumber => "NaN"
  | .infinite negative => if negative then "-Infinity" else "Infinity"
  | .finite .. => Number.floatText x

/-- What separates the parts of a list or an object at a level. -/
def lineBreak (style : Style) (level : Nat) : String :=
  match style.indent with
  | some n => String.ofList ('\n' :: List.replicate (n * level) ' ')
  | none => ""

/-- Written parts between brackets. -/
def bracketed (style : Style) (level : Nat) (opening closing : String) (parts : List String) :
    String :=
  if parts.isEmpty then opening ++ closing
  else
    opening ++ lineBreak style (level + 1) ++
      ("," ++ lineBreak style (level + 1)).intercalate parts ++ lineBreak style level ++ closing

/-- What stands between a name and its value. -/
def colon (style : Style) : String := if style.indent.isSome then ": " else ":"

mutual

/-- Writes a value at a level of nesting. Values that JSON lacks are written as their texts. -/
def writeAt (style : Style) (level : Nat) : Value → String
  | .null => "null"
  | .bool b => if b then "true" else "false"
  | .int n => toString n
  | .float x => writeFloat x
  | .text s => writeString style.ascii s
  | .moment t => writeString style.ascii t.isoText
  | .day d => writeString style.ascii d.text
  | .id i => writeString style.ascii i.text
  | .bytes bs => writeString style.ascii (String.ofList (Text.Hex.encode bs))
  | .list xs => bracketed style level "[" "]" (writeItems style (level + 1) xs)
  | .object fs => bracketed style level "\x7b" "\x7d" (writeFields style (level + 1) fs)

/-- The items of a list, written. -/
def writeItems (style : Style) (level : Nat) : List Value → List String
  | [] => []
  | x :: rest => writeAt style level x :: writeItems style level rest

/-- The fields of an object, written. -/
def writeFields (style : Style) (level : Nat) : List (String × Value) → List String
  | [] => []
  | (k, v) :: rest =>
    (writeString style.ascii k ++ colon style ++ writeAt style level v) ::
      writeFields style level rest

end

/-- Writes a value. -/
def write (style : Style) (v : Value) : String := writeAt style 0 v

end AuditReport.Json
