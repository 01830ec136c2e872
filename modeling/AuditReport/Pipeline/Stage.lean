import AuditReport.Catalog.Column
import AuditReport.Value

/-! The stages of a report query, in the form in which the store takes them. -/

namespace AuditReport

/-- A stage of a query. -/
inductive Stage where
  /-- Keeps the audits that satisfy a condition, before any join. -/
  | preMatch (condition : Document)
  /-- Attaches the related documents of a join as a list. -/
  | join (spec : Join)
  /-- Replaces the list under a name by its document; without one the field stays absent. -/
  | unwind (name : String)
  /-- Keeps the documents that satisfy all conditions, after the joins. -/
  | postMatch (conditions : List Document)
  /-- Sorts by paths, the first the most significant; the direction is 1 or -1. -/
  | sort (keys : List (String × Int))
  /-- Keeps the listed paths. -/
  | project (paths : List String)
  /-- One page of the listed paths, and the count of all documents. -/
  | facet (skip limit : Int) (paths : List String)
  deriving Repr

namespace Stage

/-- The name of a stage's kind. -/
def kind : Stage → String
  | preMatch _ => "PreMatch"
  | join _ => "Join"
  | unwind _ => "Unwind"
  | postMatch _ => "PostMatch"
  | sort _ => "Sort"
  | project _ => "Project"
  | facet .. => "Facet"

/-- The phase of a stage. Phases never decrease along a query. -/
def phase : Stage → Nat
  | preMatch _ => 0
  | join _ | unwind _ => 1
  | postMatch _ => 2
  | sort _ => 3
  | project _ | facet .. => 4

/-- The stage ends a query. -/
def isTerminal : Stage → Bool
  | project _ | facet .. => true
  | _ => false

/-- The stage yields one page. -/
def isPage : Stage → Bool
  | facet .. => true
  | _ => false

/-- The join that a stage makes. -/
def join? : Stage → Option Join
  | join j => some j
  | _ => none

/-- An inclusion of paths. -/
def inclusion (paths : List String) : Value :=
  .object [("$project", .object (Document.ofPairs (paths.map (·, .int 1))))]

/-- The stage as the store takes it. -/
def toValue : Stage → Value
  | preMatch condition => .object [("$match", .object condition)]
  | join j =>
    .object [("$lookup", .object
      [("from", .text j.collection), ("localField", .text j.localField),
        ("foreignField", .text j.foreignField), ("as", .text j.name)])]
  | unwind name =>
    .object [("$unwind", .object
      [("path", .text ("$" ++ name)), ("preserveNullAndEmptyArrays", .bool true)])]
  | postMatch conditions =>
    .object [("$match", .object [("$and", .list (conditions.map .object))])]
  | sort keys => .object [("$sort", .object (Document.ofPairs (keys.map fun k => (k.1, .int k.2))))]
  | project paths => inclusion paths
  | facet skip limit paths =>
    .object [("$facet", .object
      [("data", .list [.object [("$skip", .int skip)], .object [("$limit", .int limit)],
          inclusion paths]),
        ("totalCount", .list [.object [("$count", .text "count")]])])]

end Stage

end AuditReport
