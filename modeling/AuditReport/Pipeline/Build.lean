import AuditReport.Catalog.Audit
import AuditReport.Condition
import AuditReport.JoinPlan
import AuditReport.Pipeline.Basic

/-! Building the query of a report request: a match on audit fields, the joins, a match on joined
fields, the sort, and one page or a plain projection. -/

namespace AuditReport

/-- Why no query can be built from a request. -/
inductive BuildError where
  | coercion (e : CoercionError)
  | misordered (e : OrderError)
  deriving DecidableEq, Repr

/-- What queries are built from: a catalog, and the columns whose joins every query needs. -/
structure Blueprint where
  catalog : Catalog
  displayColumns : List String
  implicitColumns : List String

/-- The blueprint of the audit report. -/
def Audit.blueprint : Blueprint := ⟨catalog, displayColumns, implicitColumns⟩

namespace Blueprint

/-- The field that says when an audit was created. -/
def creationPath : String := "created_at"

/-- The field that says whether an audit is archived. -/
def archivedPath : String := "is_archived"

/-- The columns that a request touches, displays or implies. -/
def referenced (b : Blueprint) (filters : List Filter) (sort : List SortKey)
    (extra : List String) : List String :=
  filters.map Filter.column ++ sort.map SortKey.column ++ b.displayColumns ++ b.implicitColumns ++
    extra

/-- Each filter with its column. -/
def resolve (b : Blueprint) (filters : List Filter) :
    Except CoercionError (List (Column × Filter)) :=
  filters.mapM fun f =>
    match b.catalog.column? f.column with
    | some c => .ok (c, f)
    | none => .error (.rejected (.unknownColumn f.column))

/-- The conditions of some filters, in order. -/
def conditions (filters : List (Column × Filter)) : Except CoercionError (List Document) :=
  filters.mapM fun (c, f) => Condition.ofFilter c f

/-- The condition that leaves archived audits out. -/
def notArchived : Document := [(archivedPath, .bool false)]

/-- The match before the joins, if there is anything to match. -/
def preMatch (excludeArchived : Bool) (filters : List (Column × Filter)) :
    Except CoercionError (List Stage) := do
  let conditions ← conditions filters
  match (if excludeArchived then [notArchived] else []) ++ conditions with
  | [] => return []
  | all => return [.preMatch (Condition.merge all)]

/-- The match after the joins, if there is anything to match. -/
def postMatch (filters : List (Column × Filter)) : Except CoercionError (List Stage) := do
  match ← conditions filters with
  | [] => return []
  | all => return [.postMatch all]

/-- Every planned join, unwound at once where a later join keys off it and after all joins
otherwise. -/
def joinStages (plan : JoinPlan) : List Stage :=
  (plan.joins.flatMap fun j =>
    if plan.eager.contains j.name then [.join j, .unwind j.name] else [.join j]) ++
  plan.deferred.map .unwind

/-- The direction of a sort key as a number. -/
def direction (ascending : Bool) : Int := if ascending then 1 else -1

/-- The paths of the sortable columns among the sort keys, each with the direction in which it was
first asked for. -/
def requestedSort (b : Blueprint) (sort : List SortKey) : List (String × Int) :=
  sort.foldl (fun keys k =>
    match b.catalog.column? k.column with
    | some c =>
      if c.sortable && !keys.any (·.1 == c.path) then keys ++ [(c.path, direction k.ascending)]
      else keys
    | none => keys) []

/-- The sort: the newest audits first unless something else is asked for. The audit's identity in
the direction of the last key keeps pages stable. -/
def sortKeys (b : Blueprint) (sort : List SortKey) : List (String × Int) :=
  let keys := match b.requestedSort sort with
    | [] => [(creationPath, -1)]
    | keys => keys
  if keys.any (·.1 == "_id") then keys
  else keys ++ [("_id", (keys.getLast?.map (·.2)).getD (-1))]

/-- The stages of a request up to the given terminal stage. -/
def stages (b : Blueprint) (q : ReportQuery) (extra : List String) (terminal : Stage) :
    Except CoercionError (List Stage) := do
  let plan := JoinPlan.ofColumns b.catalog (b.referenced q.filters q.sort extra)
  let filters ← b.resolve q.filters
  let pre ← preMatch (!q.includeArchived) (filters.filter fun (c, _) => !c.needsJoin)
  let post ← postMatch (filters.filter fun (c, _) => c.needsJoin)
  return pre ++ joinStages plan ++ post ++ [.sort (b.sortKeys q.sort), terminal]

/-- The query with the stages of a request and the given terminal stage. -/
def build (b : Blueprint) (q : ReportQuery) (extra : List String) (terminal : Stage) :
    Except BuildError Pipeline := do
  match b.stages q extra terminal with
  | .error e => .error (.coercion e)
  | .ok stages =>
    match Pipeline.of stages with
    | .error e => .error (.misordered e)
    | .ok p => .ok p

/-- The query for one page. -/
def buildPage (b : Blueprint) (q : ReportQuery) : Except BuildError Pipeline :=
  b.build q [] (.facet q.skip q.limit b.catalog.paths)

/-- The query for all rows, with the joins that the given columns need. -/
def buildExport (b : Blueprint) (q : ReportQuery) (columns : List String) :
    Except BuildError Pipeline :=
  b.build q columns (.project b.catalog.paths)

end Blueprint

end AuditReport
