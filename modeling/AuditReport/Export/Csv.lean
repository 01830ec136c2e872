import AuditReport.Export.Table

/-! Tables as comma-separated text. Each record ends with a line feed. A field is quoted if it holds
a comma, a quote or a line feed, and a quote inside a quoted field is written twice. A record of one
empty field is written as an empty quoted field, so that no record is an empty line. -/

namespace AuditReport.Csv

/-- Characters that a field can only hold inside quotes. -/
def needsQuotes (c : Char) : Bool := c == ',' || c == '"' || c == '\n'

/-- The inside of a quoted field. -/
def escape : List Char → List Char
  | [] => []
  | c :: rest => if c = '"' then '"' :: '"' :: escape rest else c :: escape rest

/-- A field between quotes. -/
def quote (cs : List Char) : List Char := '"' :: escape cs ++ ['"']

/-- A field as written. -/
def field (cs : List Char) : List Char := if cs.any needsQuotes then quote cs else cs

/-- Fields with commas between them. -/
def fields : List (List Char) → List Char
  | [] => []
  | [f] => field f
  | f :: rest => field f ++ ',' :: fields rest

/-- A record as written, with the line feed that ends it. -/
def record : List (List Char) → List Char
  | [[]] => quote [] ++ ['\n']
  | fs => fields fs ++ ['\n']

/-- The text of a value in a field: nothing for a gap and for not-a-number. -/
def cellText : Value → String
  | .null => ""
  | .float x => if x.isNaN then "" else Number.floatText x
  | v => v.shown

/-- The fields of a table: its labels, then its records. -/
def fieldsOf (t : Table) : Except Crash (List (List (List Char))) :=
  t.grid.map fun rows =>
    t.labels.map String.toList :: rows.map fun row => row.map fun v => (cellText v).toList

/-- A table as text. A text with a lone surrogate cannot be written. -/
def write (t : Table) : Except Crash String := do
  let s := String.ofList ((← fieldsOf t).flatMap record)
  if Text.Surrogate.isPaired s then return s else throw .unencodable

/-! ## Reading -/

/-- Where a reader stands with respect to quotes. -/
inductive Mode where
  | plain
  | quoted
  /-- Behind a quote inside quotes, which ends them unless a second one follows. -/
  | quoteSeen
  deriving DecidableEq, Repr

/-- A reader's place, with what it has read of the field and of the record, the latest first. -/
structure Place where
  mode : Mode
  field : List Char
  record : List (List Char)

namespace Place

/-- The start of a record. -/
def start : Place := ⟨.plain, [], []⟩

/-- The record that ends here. -/
def ended (p : Place) : List (List Char) := (p.field.reverse :: p.record).reverse

/-- Takes a character into the field. -/
def take (p : Place) (mode : Mode) (c : Char) : Place := { p with mode, field := c :: p.field }

end Place

/-- Reads records: they end at line feeds outside quotes, fields end at commas outside quotes, and
two quotes inside quotes are one. -/
def readFrom (p : Place) : List Char → List (List (List Char))
  | [] => if p.field.isEmpty && p.record.isEmpty && p.mode == .plain then [] else [p.ended]
  | c :: rest =>
    if p.mode = .quoted then
      readFrom (if c = '"' then { p with mode := .quoteSeen } else p.take .quoted c) rest
    else if c = '"' then
      readFrom (if p.mode = .quoteSeen then p.take .quoted c else { p with mode := .quoted }) rest
    else if c = ',' then readFrom ⟨.plain, [], p.field.reverse :: p.record⟩ rest
    else if c = '\n' then p.ended :: readFrom .start rest
    else readFrom (p.take .plain c) rest

/-- The records of a text. -/
def read (s : String) : List (List String) :=
  (readFrom .start s.toList).map fun fs => fs.map String.ofList

end AuditReport.Csv
