import AuditReport.Coercion
import AuditReport.Request.Report
import AuditReport.Text.Pattern

/-! Match conditions: what a document's fields must satisfy, as the store's match objects. A
condition on a column is a clause on its path; on a virtual column it asks for any of the stored
fields. -/

namespace AuditReport

namespace Condition

/-- A case-insensitive pattern test. -/
def pattern (p : String) : Value :=
  .object [("$regex", .text p), ("$options", .text "i")]

/-- A test with one comparison. -/
def comparison (name : String) (v : Value) : Value := .object [(name, v)]

/-- The pattern that matches the text of a value literally. -/
def literalText (v : Value) : Except CoercionError String :=
  match v.shown? with
  | some s => .ok (Text.Pattern.escapeText s)
  | none => .error (.rejected .unprintable)

/-- The test that an operator makes with a value in stored form. -/
def test (operator : Operator) (v : Value) : Except CoercionError Value :=
  match operator with
  | .eq | .isNull => .ok v
  | .neq | .isNotNull => .ok (comparison "$ne" v)
  | .isIn => .ok (comparison "$in" v)
  | .notIn => .ok (comparison "$nin" v)
  | .contains => (literalText v).map pattern
  | .startsWith => (literalText v).map fun p => pattern ("^" ++ p)
  | .endsWith => (literalText v).map fun p => pattern (p ++ "$")
  | .gt | .after => .ok (comparison "$gt" v)
  | .gte => .ok (comparison "$gte" v)
  | .lt | .before => .ok (comparison "$lt" v)
  | .lte => .ok (comparison "$lte" v)
  | .between => .ok (.object [("$gte", v.fields.get "from"), ("$lte", v.fields.get "to")])

/-- The test on each stored field of a virtual column, which takes the value as it is. -/
def virtualTest (c : Column) (operator : Operator) (v : Value) : Except CoercionError Value :=
  match operator with
  | .eq => .ok v
  | .isIn => .ok (comparison "$in" (match v with
    | .list items => .list items
    | _ => .list [v]))
  | .contains => (literalText v).map pattern
  | _ => .error (.rejected (.operatorNotSupported operator c.key))

/-- The condition that a filter puts on a column. -/
def ofFilter (c : Column) (f : Filter) : Except CoercionError Document :=
  if c.isVirtual then
    (virtualTest c f.operator f.value).map fun t =>
      [("$or", .list (c.virtualPaths.map fun path => .object [(path, t)]))]
  else
    (Coercion.value c f.operator f.value >>= test f.operator).map fun t => [(c.path, t)]

/-- Some clause of the second condition is on a field that the first has too. -/
def overlap (merged condition : Document) : Bool := condition.any fun f => merged.has f.1

/-- Joins conditions into one object as long as no two share a field. -/
def mergeDisjoint? : (merged : Document) → List Document → Option Document
  | merged, [] => some merged
  | merged, condition :: rest =>
    if overlap merged condition then none
    else mergeDisjoint? (condition.foldl (fun d f => d.put f.1 f.2) merged) rest

/-- One condition that asks for all of the given ones: their clauses together, or a list of them
if two share a field. -/
def merge (conditions : List Document) : Document :=
  (mergeDisjoint? [] conditions).getD [("$and", .list (conditions.map .object))]

end Condition

end AuditReport
