import AuditReport.Calendar.Moment
import AuditReport.Number.Binary
import AuditReport.Text.Hex

/-! The values that stored documents, requests and reports are made of. -/

namespace AuditReport

/-- How many identities there are: one for each twenty-four hexadecimal digits. -/
abbrev DocumentId.count : Nat := 0x1000000000000000000000000

/-- The identity of a stored document: twelve bytes, as a number. -/
structure DocumentId where
  value : Nat
  value_lt : value < DocumentId.count
  deriving DecidableEq, Repr

namespace DocumentId

/-- The twenty-four hexadecimal digits of an identity. -/
def text (i : DocumentId) : String := String.ofList (Text.Hex.digits 24 i.value)

/-- The number that hexadecimal digits of either case denote. -/
def hexNumber? (cs : List Char) : Option Nat :=
  cs.foldlM (fun n c => (Text.Hex.value? c).map (16 * n + ·)) 0

/-- The identity written as exactly twenty-four hexadecimal digits of either case. Blanks between the
digits, which `Text.Hex.decode` passes over, are refused in the release modelled here. -/
def ofText? (s : String) : Option DocumentId :=
  if s.length = 24 then
    (hexNumber? s.toList).bind fun n => if h : n < count then some ⟨n, h⟩ else none
  else none

end DocumentId

/-- A dynamic value. The fields of an object keep their order and have distinct names. -/
inductive Value where
  | null
  | bool (b : Bool)
  | int (n : Int)
  | float (x : Float)
  | text (s : String)
  | moment (t : Calendar.Moment)
  | day (d : Calendar.Day)
  | id (i : DocumentId)
  | bytes (bs : List UInt8)
  | list (items : List Value)
  | object (fields : List (String × Value))
  deriving Repr, Inhabited

/-- Named values in order. -/
abbrev Document := List (String × Value)

namespace Document

/-- The value of a field, if the document has it. -/
def get? (d : Document) (name : String) : Option Value := (d.find? (·.1 == name)).map (·.2)

/-- The value of a field, a missing one counting as null. -/
def get (d : Document) (name : String) : Value := (d.get? name).getD .null

/-- The document has the field. -/
def has (d : Document) (name : String) : Bool := d.any (·.1 == name)

/-- Gives a field its value: in its place if the document has the field, at the end otherwise. -/
def put (d : Document) (name : String) (v : Value) : Document :=
  if d.has name then d.map fun f => if f.1 == name then (name, v) else f else d ++ [(name, v)]

/-- The document that repeated assignments leave: each field stands where it was first named and
holds what it was last given. -/
def ofPairs (pairs : List (String × Value)) : Document :=
  pairs.foldl (fun d f => d.put f.1 f.2) []

end Document

namespace Value

/-- The fields of an object; any other value has none. -/
def fields : Value → Document
  | object fs => fs
  | _ => []

/-- Nothing to show: null, false, zero, and empty texts, bytes, lists and objects. -/
def isEmpty : Value → Bool
  | null => true
  | bool b => !b
  | int n => n == 0
  | float x => x == 0.0
  | text s => s.isEmpty
  | bytes bs => bs.isEmpty
  | list xs => xs.isEmpty
  | object fs => fs.isEmpty
  | moment _ | day _ | id _ => false

/-- Neither a list nor an object. Only such values serve as keys. -/
def isScalar : Value → Bool
  | list _ | object _ => false
  | _ => true

end Value

end AuditReport
