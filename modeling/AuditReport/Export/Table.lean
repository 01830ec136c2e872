import AuditReport.Catalog.Audit
import AuditReport.Failure
import AuditReport.Number.Word
import AuditReport.Report.Row

/-! Tables of labelled records, ready to be written to a file. -/

namespace AuditReport

/-- Labels in order, and records with a value under each label. -/
structure Table where
  labels : List String
  records : List Document
  deriving Repr

namespace Table

/-- A value as the content of a cell: nothing as an empty text, moments and days as days, lists
joined. -/
def cell : Value → Value
  | .null => .text ""
  | .moment t => .text t.day.text
  | .day d => .text d.text
  | .list items => .text (", ".intercalate (items.map Value.shown))
  | v => v

/-- The record of a row: the cell of each column under its label. -/
def record (columns : List Column) (r : Row) : Document :=
  let values := r.toDocument
  Document.ofPairs (columns.map fun c => (c.label, cell (values.get c.key)))

/-- The table of some rows with the columns of the given keys, all of which must be known. -/
def ofRows (catalog : Catalog) (keys : List String) (rows : List Row) : Except Crash Table := do
  let columns ← keys.mapM fun k => match catalog.column? k with
    | some c => .ok c
    | none => .error .missingField
  return ⟨columns.map Column.label, rows.map (record columns)⟩

/-- What the values of a column have shown, read from the top. -/
structure Traits where
  hasBoolean : Bool
  hasDouble : Bool
  hasGap : Bool
  hasNegative : Bool
  /-- An integer that only an unsigned word can hold. -/
  hasLarge : Bool
  deriving DecidableEq, Repr

namespace Traits

/-- What is known before the first value. -/
def initial : Traits := ⟨false, false, false, false, false⟩

/-- Takes note of an integer. Behind a gap its size does not matter. -/
def withInteger (t : Traits) (n : Int) : Traits :=
  if t.hasGap then t
  else
    { t with
      hasNegative := t.hasNegative || decide (n < 0)
      hasLarge := t.hasLarge || decide ((Number.wordBound : Int) ≤ n) }

/-- Some word can hold an integer, and one kind of word all integers that were noted. -/
def admits (t : Traits) (n : Int) : Bool :=
  t.hasGap || (-(Number.wordBound : Int) ≤ n && n < 2 * Number.wordBound &&
    !(t.hasNegative && t.hasLarge))

end Traits

/-- Whether a column is one of doubles: it has nothing but numbers and gaps, not all of them
integers. A value that is no number ends the search, and so does an integer that no word can hold
together with the others. An integer that is too large for a double fails it. -/
def isOfDoubles (t : Traits) : List Value → Except Crash Bool
  | [] => .ok ((t.hasDouble || t.hasGap) && !t.hasBoolean)
  | .null :: rest => isOfDoubles { t with hasGap := true } rest
  | .float _ :: rest => isOfDoubles { t with hasDouble := true } rest
  | .bool _ :: rest => isOfDoubles { t with hasBoolean := true } rest
  | .int n :: rest =>
    if (Number.ofInt? n).isNone then .error .outOfRange
    else if (t.withInteger n).admits n then isOfDoubles (t.withInteger n) rest
    else .ok false
  | _ :: _ => .ok false

/-- The values of one column. In a column of doubles the integers become doubles. -/
def harmonize (vs : List Value) : Except Crash (List Value) := do
  if ← isOfDoubles .initial vs then
    return vs.map fun v => match v with
      | .int n => .float (Float.ofInt n)
      | v => v
  else return vs

/-- What stands for a value that a record lacks. -/
def missing : Value := .float (0.0 / 0.0)

/-- The values under a label, record by record. -/
def column (t : Table) (label : String) : Except Crash (List Value) :=
  harmonize (t.records.map fun r => (r.get? label).getD missing)

/-- The rows that some columns of the same length make. -/
def transpose (height : Nat) (columns : List (List Value)) : List (List Value) :=
  (List.range height).map fun i => columns.map fun c => c.getD i .null

/-- The values of the table, record by record, each in the order of the labels. -/
def grid (t : Table) : Except Crash (List (List Value)) :=
  (t.labels.mapM t.column).map (transpose t.records.length)

end Table

end AuditReport
