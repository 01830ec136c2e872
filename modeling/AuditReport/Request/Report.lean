import AuditReport.Catalog.Operator
import AuditReport.Request.Scalar

/-! Requests: a page of the report, or an export of all of it. Both are read from an object whose
fields carry their camel-case names; `include_archived` is accepted too. -/

namespace AuditReport

/-- What one filter asks of one column. -/
structure Filter where
  column : String
  operator : Operator
  value : Value
  deriving Repr

/-- A column to sort by, and whether ascending. -/
structure SortKey where
  column : String
  ascending : Bool
  deriving DecidableEq, Repr

/-- A request for one page of the report. -/
structure ReportQuery where
  filters : List Filter
  sort : List SortKey
  page : Int
  limit : Int
  includeArchived : Bool
  deriving Repr

/-- The file formats of exports. -/
inductive ExportFormat where
  | csv | xlsx
  deriving DecidableEq, Repr

/-- A request for an export. Its page and limit are read but do not narrow it. -/
structure ExportRequest where
  query : ReportQuery
  format : ExportFormat
  /-- The columns asked for, each once; all visible ones if none are named. -/
  columns : Option (List String)
  deriving Repr

open Schema

namespace Filter

/-- Reads a filter. `objectKind` is the fault of anything but an object; other fields are
ignored. -/
def read (objectKind : IssueKind) : Reader Filter
  | .object d =>
    let column := required d ["column"] filledText
    let operator := required d ["operator"] (choice Operator.ofName?)
    let value := optional d ["value"] (.ok ·) .null
    Reading.app (Reading.app (column.map Filter.mk) operator) value
  | v => refuse objectKind v

/-- The filter as an object. -/
def toValue (f : Filter) : Value :=
  .object [("column", .text f.column), ("operator", .text f.operator.name), ("value", f.value)]

end Filter

namespace SortKey

/-- The direction with a name: true for ascending. -/
def direction? (s : String) : Option Bool :=
  if s = "asc" then some true else if s = "desc" then some false else none

/-- Reads a sort key. -/
def read (objectKind : IssueKind) : Reader SortKey
  | .object d =>
    let column := required d ["column"] filledText
    let order := required d ["order"] (choice direction?)
    Reading.app (column.map SortKey.mk) order
  | v => refuse objectKind v

/-- The sort key as an object. -/
def toValue (k : SortKey) : Value :=
  .object [("column", .text k.column), ("order", .text (if k.ascending then "asc" else "desc"))]

end SortKey

namespace ExportFormat

/-- The name of a format, which is also the ending of its files. -/
def name : ExportFormat → String
  | csv => "csv"
  | xlsx => "xlsx"

/-- The format with a name. -/
def ofName? (s : String) : Option ExportFormat := [csv, xlsx].find? (·.name == s)

end ExportFormat

namespace ReportQuery

/-- The rows before the page. -/
def skip (q : ReportQuery) : Int := (q.page - 1) * q.limit

/-- The names of the fields, the preferred name first. -/
def fieldNames : List (List String) :=
  [["filters"], ["sort"], ["page"], ["limit"], ["includeArchived", "include_archived"]]

/-- Reads the fields of a report request, whatever other fields there are. -/
def readFields (objectKind : IssueKind) (d : Document) : Reading ReportQuery :=
  let filters := optional d ["filters"] (listOf (Filter.read objectKind)) []
  let sort := optional d ["sort"] (listOf (SortKey.read objectKind)) []
  let page := optional d ["page"] (integerIn 1 none) 1
  let limit := optional d ["limit"] (integerIn 1 (some 100)) 25
  let archived := optional d ["includeArchived", "include_archived"] boolean false
  Reading.app (Reading.app (Reading.app (Reading.app (filters.map ReportQuery.mk) sort) page) limit)
    archived

/-- Reads a report request. -/
def read (objectKind : IssueKind) : Reader ReportQuery
  | .object d =>
    closed d fieldNames (readFields objectKind d)
  | v => refuse objectKind v

/-- The request's fields as an object. -/
def toDocument (q : ReportQuery) : Document :=
  [("filters", .list (q.filters.map Filter.toValue)), ("sort", .list (q.sort.map SortKey.toValue)),
    ("page", .int q.page), ("limit", .int q.limit), ("includeArchived", .bool q.includeArchived)]

end ReportQuery

namespace ExportRequest

/-- The names of the fields. -/
def fieldNames : List (List String) := ReportQuery.fieldNames ++ [["format"], ["columns"]]

/-- Reads the column list; of repeated columns the first counts. -/
def readColumns : Reader (Option (List String)) := fun v =>
  (nullable (listOf text) v).map (·.map List.eraseDups)

/-- Reads an export request. -/
def read (objectKind : IssueKind) : Reader ExportRequest
  | .object d =>
    let query := ReportQuery.readFields objectKind d
    let format := required d ["format"] (choice ExportFormat.ofName?)
    let columns := optional d ["columns"] readColumns none
    closed d fieldNames (Reading.app (Reading.app (query.map ExportRequest.mk) format) columns)
  | v => refuse objectKind v

/-- The request's fields as an object. -/
def toDocument (r : ExportRequest) : Document :=
  r.query.toDocument ++
    [("format", .text r.format.name),
      ("columns", match r.columns with
        | some cs => .list (cs.map Value.text)
        | none => .null)]

end ExportRequest

end AuditReport
