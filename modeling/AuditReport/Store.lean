import AuditReport.Failure

/-! The document store as the report sees it: what it answers to each kind of read, and the calls
that are made on it. -/

namespace AuditReport

/-- Why the store gives no answer. -/
inductive StoreFault where
  /-- The query ran out of the time that it was given. -/
  | timedOut (message : String)
  | failed (message : String)
  /-- A fault that is not the store's own. -/
  | broken (crash : Crash)
  deriving DecidableEq, Repr

/-- One call on the store. -/
inductive StoreCall where
  /-- An aggregation over a collection that may take some milliseconds. -/
  | aggregate (collection : String) (stages : List Value) (timeout : Int)
  /-- All documents of a collection, restricted to some fields. -/
  | find (collection : String) (projection : Document)
  /-- Puts the documents that were found into the ascending order of a field. -/
  | sort (field : String)
  /-- The distinct values of a field. -/
  | distinct (collection field : String)
  deriving Repr

/-- The answers of a store. -/
structure Store where
  aggregate : (collection : String) → (stages : List Value) → Except StoreFault (List Value)
  find : (collection : String) → Except StoreFault (List Value)
  distinct : (collection field : String) → Except StoreFault (List Value)

namespace Store

/-- The store without documents. -/
def empty : Store := ⟨fun _ _ => .ok [], fun _ => .ok [], fun _ _ => .ok []⟩

/-- How a read of `what` fails. -/
def unread (what : String) : StoreFault → Failure
  | .timedOut message | .failed message =>
    .storeFailed ("Failed to fetch " ++ what ++ ": " ++ message)
  | .broken crash => .crashed crash

/-- How an aggregation with a time limit fails. -/
def unaggregated (timeout : Int) : StoreFault → Failure
  | .timedOut _ => .storeFailed ("Report query timed out after " ++ toString timeout ++ " ms")
  | .failed message => unread "report data" (.failed message)
  | .broken crash => .crashed crash

end Store

end AuditReport
