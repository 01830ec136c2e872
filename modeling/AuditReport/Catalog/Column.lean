import AuditReport.Catalog.Operator

/-! Joins that attach related documents to an audit, and the columns of the report. -/

namespace AuditReport

/-- A lookup that attaches one related document to the audit under the join's name. -/
structure Join where
  collection : String
  localField : String
  foreignField : String
  name : String
  deriving DecidableEq, Repr

/-- The name of the join whose document a field path leads into: what stands before its first point, if it has one. -/
def pathJoin? (path : String) : Option String :=
  let cs := path.toList
  if '.' ∈ cs then some (String.ofList (cs.takeWhile (· != '.'))) else none

/-- The name of the join whose fields this join keys off, if any. -/
def Join.dependency? (j : Join) : Option String := pathJoin? j.localField

/-- The document that a column's value comes from. -/
inductive Source where
  | audit | property | portfolio | credentials | auditStatus | batch | currency | serviceType
  deriving DecidableEq, Repr

namespace Source

/-- All sources. -/
def all : List Source :=
  [audit, property, portfolio, credentials, auditStatus, batch, currency, serviceType]

/-- The name of a source in column descriptions. -/
def name : Source → String
  | audit => "audit"
  | property => "property"
  | portfolio => "portfolio"
  | credentials => "credentials"
  | auditStatus => "auditStatus"
  | batch => "batch"
  | currency => "currency"
  | serviceType => "serviceType"

/-- The source with a name. -/
def ofName? (s : String) : Option Source := all.find? (·.name == s)

end Source

/-- A column of the report. -/
structure Column where
  /-- The name of the column in requests. -/
  key : String
  /-- The heading of the column in exports. -/
  label : String
  dataType : DataType
  source : Source
  /-- Where the value stands in the joined document. -/
  path : String
  /-- The operators that filters may use, as a set. -/
  operators : List Operator
  filterable : Bool
  sortable : Bool
  /-- The only values the column takes, if they are fixed. -/
  choices : Option (List String)
  /-- The joins that must run before the value exists, dependencies first. -/
  joins : List Join
  /-- The stored fields behind a virtual column. A filter on it asks for any of them. -/
  virtualPaths : List String
  /-- Left out of column descriptions but usable in filters. -/
  filterOnly : Bool
  deriving Repr

namespace Column

/-- The value exists only after some join. -/
def needsJoin (c : Column) : Bool := !c.joins.isEmpty

/-- The column stands for several stored fields. -/
def isVirtual (c : Column) : Bool := !c.virtualPaths.isEmpty

/-- The allowed operators in the order in which they are listed to users. -/
def orderedOperators (c : Column) : List Operator := Operator.all.filter (c.operators.contains ·)

/-- The operators that a column of this kind may allow. -/
def admissible (c : Column) : List Operator :=
  if c.isVirtual then virtualOperators else c.dataType.operators

/-- The stored fields that the column's value is made from. -/
def paths (c : Column) : List String := if c.isVirtual then c.virtualPaths else [c.path]

end Column

end AuditReport
