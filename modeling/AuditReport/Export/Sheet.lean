import AuditReport.Export.Table
import AuditReport.Number.Reading

/-! Tables as spreadsheets. A sheet keeps numbers to sixteen significant digits, knows no difference
between integers and whole doubles, and has neither carriage returns nor control characters in its
texts. Columns are as wide as their longest value. -/

namespace AuditReport

/-- A sheet: its cells as they are found in it, and the widths of its columns. -/
structure Sheet where
  rows : List (List Value)
  widths : List (String × Nat)
  deriving Repr

namespace Sheet

/-- The longest text of a cell. -/
def textLimit : Nat := 32767

/-- The greatest width of a column. -/
def widthLimit : Nat := 50

/-- Characters that no cell can hold. -/
def isUnwritable (c : Char) : Bool :=
  c.toNat < 9 || c.toNat = 11 || c.toNat = 12 || (14 ≤ c.toNat && c.toNat < 32)

/-- A value as it is put into a cell: a number, a truth value, or a text. -/
def entered : Value → Value
  | .null => .text ""
  | .float x =>
    match Number.Binary.ofFloat x with
    | .notANumber => .text ""
    | .infinite negative => .text (if negative then "-inf" else "inf")
    | .finite .. => .float x
  | .int n => .int n
  | .bool b => .bool b
  | v => .text v.shown

/-- Line ends as line feeds. -/
def withLineFeeds : List Char → List Char
  | [] => []
  | '\r' :: '\n' :: rest => '\n' :: withLineFeeds rest
  | c :: rest => (if c = '\r' then '\n' else c) :: withLineFeeds rest

/-- The part of a text that a cell holds. -/
def kept (s : String) : List Char := s.toList.take textLimit

/-- A text as it is found in a cell. -/
def foundText (s : String) : Value :=
  if (kept s).isEmpty then .null else .text (String.ofList (withLineFeeds (kept s)))

/-- A number as it is found in a cell. -/
def foundNumber (x : Float) : Value :=
  let cs := (Number.significantText 16 x).toList
  if cs.contains '.' || cs.contains 'e' then
    match Number.readFloat? cs with
    | some y => .float y
    | none => .float x
  else
    match Number.readInt? cs with
    | some n => .int n
    | none => .float x

/-- An entered value as it is found in its cell. -/
def found : Value → Except Crash Value
  | .text s => .ok (foundText s)
  | .float x => .ok (foundNumber x)
  | .int n => match Number.ofInt? n with
    | some x => .ok (foundNumber x)
    | none => .error .outOfRange
  | v => .ok v

/-- The letters of the column with an index, counted from zero. -/
def letters (n : Nat) : List Char :=
  if n < 26 then [Char.ofNat (65 + n)]
  else letters (n / 26 - 1) ++ [Char.ofNat (65 + n % 26)]
termination_by n

/-- The width of a column with the given values. -/
def width (entries : List Value) : Nat :=
  min ((entries.map fun v => v.shown.length).foldl max 0 + 2) widthLimit

/-- Fails if one of the texts among some values is bad. -/
def checkTexts (bad : String → Bool) (fault : Crash) (entries : List (List Value)) :
    Except Crash Unit :=
  let isBad : Value → Bool := fun v => match v with
    | .text s => bad s
    | _ => false
  if entries.any fun row => row.any isBad then .error fault else .ok ()

/-- The sheet of a table. Without labels it has no rows either. Control characters are found when
texts are put into cells, and lone surrogates when all cells are written. -/
def ofTable (t : Table) : Except Crash Sheet := do
  if t.labels.isEmpty then return ⟨[], []⟩
  let entries := t.labels.map Value.text :: (← t.grid).map fun row => row.map entered
  checkTexts (fun s => (kept s).any isUnwritable) .unwritableCharacter entries
  let rows ← entries.mapM fun row => row.mapM found
  checkTexts (fun s => !Text.Surrogate.isPaired (String.ofList (kept s))) .unencodable entries
  let widths := (List.range t.labels.length).map fun i =>
    (String.ofList (letters i), width (entries.map fun row => row.getD i .null))
  return ⟨rows, widths⟩

end Sheet

end AuditReport
