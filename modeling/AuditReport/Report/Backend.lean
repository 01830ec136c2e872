import AuditReport.Report.Lists
import AuditReport.Report.Page
import AuditReport.Report.Resolver
import AuditReport.Store

/-! What the report works on: the document store, with a record of the calls made on it, and the
resolver at a time of its clock. -/

namespace AuditReport

/-- The store and the resolver. -/
structure Backend (T : Type) where
  store : Store
  /-- The calls made so far, the latest last. -/
  calls : List StoreCall
  resolver : Resolver T
  /-- What the resolver's clock shows. It is read once for each piece of work that the resolver is
  given, where the program's caches read it anew for each entry. -/
  now : T

namespace Backend

variable {T : Type} [LE T] [DecidableLE T] [Timeline T] {α : Type}

/-- Work on the backend, which may fail; what it did by then stays done. -/
abbrev Action (T : Type) := ExceptT Failure (StateM (Backend T))

/-- Records a call. -/
def record (call : StoreCall) : Action T Unit :=
  modify fun b => { b with calls := b.calls ++ [call] }

/-- Lets the resolver work. -/
def resolve (work : T → Resolver.Action T α) : Action T α :=
  ExceptT.mk fun b =>
    let (result, resolver) := (work b.now).run.run b.resolver
    (result, { b with resolver })

/-- What the store answers to an aggregation. -/
def aggregate (collection : String) (timeout : Int) (p : Pipeline) : Action T (List Value) := do
  let stages := p.toValues
  record (.aggregate collection stages timeout)
  let answer := (← get).store.aggregate collection stages
  ofExcept (answer.mapError (Store.unaggregated timeout))

/-- The documents of a collection, restricted to some fields. A failure names `what` was read. -/
def find (what collection : String) (projection : Document) : Action T (List Value) := do
  record (.find collection projection)
  let answer := (← get).store.find collection
  ofExcept (answer.mapError (Store.unread what))

/-- The documents of a collection with their names, in the order of the names. -/
def findNamed (collection : String) : Action T (List Value) := do
  let docs ← find (collection ++ " list") collection [("name", .int 1)]
  record (.sort "name")
  return docs

/-- The distinct values of a field. A failure names `what` was read. -/
def distinct (what collection field : String) : Action T (List Value) := do
  record (.distinct collection field)
  let answer := (← get).store.distinct collection field
  ofExcept (answer.mapError (Store.unread what))

/-- The page that a query for one yields. -/
def runPage (collection : String) (timeout : Int) (p : Pipeline) : Action T Page := do
  if !p.isPage then throw .notAPage
  ofExcept ((Page.ofAnswer (← aggregate collection timeout p)).mapError .crashed)

/-- The documents that a query for all rows yields. -/
def runExport (collection : String) (timeout : Int) (p : Pipeline) : Action T (List Value) := do
  if p.isPage then throw .notAnExport
  aggregate collection timeout p

/-- The credentials of all properties, restricted to some fields. -/
def credentials (fields : List String) : Action T (List Value) :=
  find "property credentials" credentialsCollection (Lists.projection fields)

/-- The stored passwords of all properties with their providers. -/
def storedPasswords : Action T (List Value) := do
  let found ← credentials (Lists.credentialFields "password")
  ofExcept ((Lists.storedPasswords found).mapError .crashed)

/-- The password list under a key: the live one, or a new one made from what `load` yields. -/
def passwordList (key : String) (load : Action T (List Value)) :
    Action T (List PasswordItem) := do
  match ← resolve (Resolver.liveList · key) with
  | some items => return items
  | none =>
    let stored ← load
    resolve (Resolver.newList · key stored)

end Backend

end AuditReport
