import AuditReport.Failure
import AuditReport.Report.Row
import AuditReport.Value.Key

/-! Lists of stored identities, names and addresses from which filters are chosen. -/

namespace AuditReport

/-- The collection of the properties' credentials. -/
def credentialsCollection : String := "PropertyCredentials"

/-- The collection of portfolios. -/
def portfolioCollection : String := "Portfolio"

/-- The collection of properties. -/
def propertyCollection : String := "Property"

namespace Lists

/-- The field of the credentials that belongs to a provider. -/
def credentialField (provider suffix : String) : String := provider ++ "_" ++ suffix

/-- The fields that all providers have under a suffix. -/
def credentialFields (suffix : String) : List String :=
  Audit.providers.map (credentialField · suffix)

/-- Restricts documents to some fields, without their identity. -/
def projection (fields : List String) : Document :=
  fields.map (·, .int 1) ++ [("_id", .int 0)]

/-- The documents among some values, all of which must be documents. -/
def documents (vs : List Value) : Except Crash (List Document) :=
  vs.mapM fun v => match v with
    | .object d => .ok d
    | _ => .error .notADocument

/-- What the credentials hold for each provider, empty values left out, in the order of the
documents and then of the providers. -/
def held (suffix : String) (credentials : List Document) : List (String × Value) :=
  credentials.flatMap fun d => Audit.providers.filterMap fun p =>
    let v := d.get (credentialField p suffix)
    if v.isEmpty then none else some (p, v)

/-- The order of pairs: by provider, then by text. -/
def pairBefore (a b : String × String) : Bool :=
  a.1 < b.1 || (a.1 == b.1 && !decide (b.2 < a.2))

/-- The distinct pairs of a provider and the text that some credentials hold for it, in order. -/
def pairs (suffix : String) (credentials : List Value) : Except Crash (List (String × String)) := do
  let found := held suffix (← documents credentials)
  return (found.map fun (p, v) => (p, v.shown)).eraseDups.mergeSort pairBefore

/-- The stored passwords with their providers, as documents. -/
def storedPasswords (credentials : List Value) : Except Crash (List Value) := do
  let found := held "password" (← documents credentials)
  return found.map fun (p, v) => .object [("password", v), ("ota_type", .text p)]

/-- Values in order, empty ones left out. -/
def ordered (vs : List Value) : Except Crash (List Value) :=
  match Value.sorted? (vs.filter (!·.isEmpty)) with
  | some sorted => .ok sorted
  | none => .error .notComparable

/-- The distinct values that credentials hold in one field, in order, empty ones left out. -/
def fieldValues (field : String) (credentials : List Value) : Except Crash (List Value) := do
  let keys ← credentials.mapM fun v => match v with
    | .object d => match Key.ofValue? (Document.get d field) with
      | some k => .ok k
      | none => .error .notAKey
    | _ => .error .notADocument
  ordered ((distinctBy (fun a b => a == b) keys).map Key.value)

/-- Values as texts, which all of them must be. -/
def texts (vs : List Value) : Except Failure (List String) :=
  (Row.field "data" (.list vs) (Schema.listOf Schema.text)).mapError .malformed

/-- A document with a name. -/
structure NamedItem where
  id : String
  name : String
  deriving DecidableEq, Repr

/-- The identity and the name of a document; the name may be empty but must be a text. -/
def identified (v : Value) : Except Crash (String × Value) :=
  match v with
  | .object d => match Document.get? d "_id" with
    | some i => .ok (i.shown, Row.orEmpty (Document.get d "name"))
    | none => .error .missingField
  | _ => .error .wrongKind

/-- The named items that some documents are. -/
def namedItems (docs : List Value) : Except Failure (List NamedItem) := do
  let found ← (docs.mapM identified).mapError .crashed
  found.mapM fun (id, name) =>
    ((Row.field "name" name Schema.text).mapError .malformed).map (NamedItem.mk id ·)

end Lists

end AuditReport
