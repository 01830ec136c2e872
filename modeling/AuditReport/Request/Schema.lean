import AuditReport.Text.Surrogate
import AuditReport.Value

/-! Reading typed values out of dynamic ones. A reader reports every fault of its input, each with
the path to the offending part. -/

namespace AuditReport.Schema

/-- One step of the path to a part of a value. -/
inductive Step where
  | field (name : String)
  | item (index : Nat)
  deriving DecidableEq, Repr

/-- What is wrong with a part of a value. -/
inductive IssueKind where
  | missing | notAnObject | notABody | unknownField | notAList
  | notText | brokenText | emptyText | notAChoice
  | notAnInteger | unreadableInteger | oversizedInteger | fractionalInteger | notFinite
  | belowMinimum | aboveMaximum
  | notABoolean | unreadableBoolean
  | notANumber | unreadableNumber
  | notAMoment | unreadableMoment | outsideCalendar
  | unreadableJson
  deriving DecidableEq, Repr

/-- The name of a fault in answers. -/
def IssueKind.name : IssueKind → String
  | missing => "missing"
  | notAnObject => "model_type"
  | notABody => "model_attributes_type"
  | unknownField => "extra_forbidden"
  | notAList => "list_type"
  | notText => "string_type"
  | brokenText => "string_unicode"
  | emptyText => "string_too_short"
  | notAChoice => "enum"
  | notAnInteger => "int_type"
  | unreadableInteger => "int_parsing"
  | oversizedInteger => "int_parsing_size"
  | fractionalInteger => "int_from_float"
  | notFinite => "finite_number"
  | belowMinimum => "greater_than_equal"
  | aboveMaximum => "less_than_equal"
  | notABoolean => "bool_type"
  | unreadableBoolean => "bool_parsing"
  | notANumber => "float_type"
  | unreadableNumber => "float_parsing"
  | notAMoment => "datetime_type"
  | unreadableMoment => "datetime_from_date_parsing"
  | outsideCalendar => "datetime_parsing"
  | unreadableJson => "json_invalid"

/-- A fault of one part of a value. -/
structure Issue where
  path : List Step
  kind : IssueKind
  input : Value
  deriving Repr

/-- A typed value, or all faults that stand in its way. -/
abbrev Reading (α : Type) := Except (List Issue) α

/-- A way to read a typed value. -/
abbrev Reader (α : Type) := Value → Reading α

/-- A single fault at the value itself. -/
def refuse {α : Type} (kind : IssueKind) (v : Value) : Reading α := .error [⟨[], kind, v⟩]

namespace Reading

/-- The faults of a reading. -/
def issues {α : Type} : Reading α → List Issue
  | .ok _ => []
  | .error es => es

/-- Puts a step in front of the paths of all faults. -/
def under {α : Type} (s : Step) : Reading α → Reading α
  | .ok a => .ok a
  | .error es => .error (es.map fun e => { e with path := s :: e.path })

/-- Applies a function that was read to an argument that was read. The faults of both are kept. -/
def app {α β : Type} (f : Reading (α → β)) (x : Reading α) : Reading β :=
  match f, x with
  | .ok f, .ok a => .ok (f a)
  | .ok _, .error es => .error es
  | .error es, x => .error (es ++ issues x)

/-- Keeps what was read if a check of the same input finds no fault. -/
def checkedBy {α : Type} (x : Reading α) (check : Reading Unit) : Reading α :=
  app (x.map fun a _ => a) check

end Reading

/-- A list, item by item. -/
def readItems {α : Type} (read : Reader α) : (index : Nat) → List Value → Reading (List α)
  | _, [] => .ok []
  | i, v :: rest =>
    Reading.app (((read v).under (.item i)).map List.cons) (readItems read (i + 1) rest)

/-- A list of values that `read` accepts. -/
def listOf {α : Type} (read : Reader α) : Reader (List α)
  | .list xs => readItems read 0 xs
  | v => refuse .notAList v

/-- Null, or a value that `read` accepts. -/
def nullable {α : Type} (read : Reader α) : Reader (Option α)
  | .null => .ok none
  | v => (read v).map some

/-- The first of some names that a document has, with its value. -/
def given? (d : Document) (names : List String) : Option (String × Value) :=
  names.findSome? fun n => (d.get? n).map (n, ·)

/-- A field under the first of its names that is given. -/
def required {α : Type} (d : Document) (names : List String) (read : Reader α) : Reading α :=
  match given? d names with
  | some (n, v) => (read v).under (.field n)
  | none => (refuse .missing (.object d)).under (.field (names.headD ""))

/-- A field under the first of its names that is given, or its default. -/
def optional {α : Type} (d : Document) (names : List String) (read : Reader α) (default : α) :
    Reading α :=
  match given? d names with
  | some (n, v) => (read v).under (.field n)
  | none => .ok default

/-- The faults for the fields of a document that belong to none of the given name lists. A field
read under its first name leaves its other names unknown. -/
def unknownFields (d : Document) (names : List (List String)) : Reading Unit :=
  let used := names.filterMap fun ns => (given? d ns).map (·.1)
  match d.filter fun f => !used.contains f.1 with
  | [] => .ok ()
  | extra => .error (extra.map fun f => ⟨[.field f.1], .unknownField, f.2⟩)

/-- Reads a document that may have no other fields than the named ones. A name that is no proper
text ends the reading at once. -/
def closed {α : Type} (d : Document) (names : List (List String)) (fields : Reading α) :
    Reading α :=
  match d.find? fun f => !Text.Surrogate.isPaired f.1 with
  | some (name, _) => refuse .brokenText (.text name)
  | none => fields.checkedBy (unknownFields d names)

end AuditReport.Schema
