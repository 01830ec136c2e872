import AuditReport.Access
import AuditReport.Export.Table
import AuditReport.Report.Backend
import AuditReport.Request.Validation

/-! The report's operations: pages and exports of the report, its columns, the lists from which
filters are chosen, and dropping what is cached. Each of them decides first whether the caller may
perform it. -/

namespace AuditReport

/-- What is listed of the credentials, apart from passwords. -/
inductive CredentialPart where
  | id
  | username
  deriving DecidableEq, Repr

namespace CredentialPart

/-- How the stored fields of this part end. -/
def suffix : CredentialPart → String
  | id => "id"
  | username => "username"

/-- The part as named in messages. -/
def plural : CredentialPart → String
  | id => "IDs"
  | username => "usernames"

/-- The name of the part in answers. -/
def answerName : CredentialPart → String
  | id => "otaId"
  | username => "otaUsername"

end CredentialPart

/-- What a caller can ask for. -/
inductive Operation where
  | page (q : ReportQuery)
  | table (r : ExportRequest)
  | columns
  | pairs (part : CredentialPart)
  | passwords
  | providerValues (provider : String) (part : CredentialPart)
  | providerPasswords (provider : String)
  | contactEmails
  | portfolios
  | properties
  | clearCache
  deriving Repr

/-- The operation as named when it is denied. -/
def Operation.action : Operation → String
  | page _ => "access global reports"
  | table _ => "export global reports"
  | columns => "access global report columns"
  | pairs part => "access OTA " ++ part.plural
  | passwords => "access OTA passwords"
  | providerValues provider part => "access " ++ provider ++ " " ++ part.plural
  | providerPasswords provider => "access " ++ provider ++ " passwords"
  | contactEmails => "access portfolio contact emails"
  | portfolios => "access portfolios"
  | properties => "access properties"
  | clearCache => "clear the report cache"

/-- What an operation yields. -/
inductive Answer where
  | page (p : ReportPage)
  | table (t : Table)
  | columns (cs : List Column)
  /-- Texts of one part of the credentials, each with its provider in front. -/
  | pairs (part : CredentialPart) (found : List (String × String))
  | passwords (items : List PasswordItem)
  | texts (found : List String)
  | named (items : List Lists.NamedItem)
  | done
  deriving Repr

namespace Answer

/-- A column as described to users. -/
def ofColumn (c : Column) : Value :=
  .object [("key", .text c.key), ("label", .text c.label), ("dataType", .text c.dataType.name),
    ("filterable", .bool c.filterable), ("sortable", .bool c.sortable),
    ("allowedOperators", .list (c.orderedOperators.map fun op => .text op.name)),
    ("enumValues", match c.choices with
      | some (first :: rest) => .list ((first :: rest).map .text)
      | _ => .null)]

/-- A list of data as an answer. -/
def data (items : List Value) : Value := .object [("data", .list items)]

/-- The answer as a value. -/
def toValue : Answer → Value
  | page p => p.toValue
  | table t =>
    .object [("labels", .list (t.labels.map .text)), ("records", .list (t.records.map .object)),
      ("count", .int t.records.length)]
  | columns cs => .object [("columns", .list (cs.map ofColumn))]
  | pairs part found =>
    data (found.map fun (provider, s) =>
      .object [(part.answerName, .text s), ("otaType", .text provider)])
  | passwords items =>
    data (items.map fun i => .object [("password", .text i.password), ("otaType", .text i.otaType)])
  | texts found => data (found.map .text)
  | named items => data (items.map fun i => .object [("id", .text i.id), ("name", .text i.name)])
  | done => .null

end Answer

/-- The service: the columns of its report, who may use it, and how many milliseconds its queries
may take. -/
structure Service where
  blueprint : Blueprint
  authorizer : Authorizer
  timeout : Int

namespace Service

open Backend (Action)

variable {T : Type} [LE T] [DecidableLE T] [Timeline T]

/-- The collection that the report is about. -/
def auditCollection : String := "Audit"

/-- The rules that filters and sort keys must keep. -/
def validate (s : Service) (q : ReportQuery) : Except Failure Unit :=
  (Validation.check s.blueprint.catalog q.filters q.sort).mapError .ofRejection

/-- Goes on only for a caller who may perform an operation. -/
def authorize (s : Service) (u : User) (operation : Operation) : Action T Unit :=
  ofExcept (ensureAuthorized s.authorizer u operation.action)

/-- One page of the report. -/
def page (s : Service) (u : User) (q : ReportQuery) : Action T ReportPage := do
  s.authorize u (.page q)
  ofExcept (s.validate q)
  let pipeline ← ofExcept ((s.blueprint.buildPage q).mapError Failure.ofBuild)
  let found ← Backend.runPage auditCollection s.timeout pipeline
  let rows ← Backend.resolve (Resolver.resolveRows · found.documents)
  return ⟨rows, ← ofExcept (PageInfo.of found.total q.page q.limit)⟩

/-- The columns of an export: those asked for, or all visible ones. -/
def exportKeys (s : Service) (r : ExportRequest) : List String :=
  match r.columns with
  | some (first :: rest) => first :: rest
  | _ => s.blueprint.catalog.visibleColumns.map Column.key

/-- The whole report as a table. -/
def table (s : Service) (u : User) (r : ExportRequest) : Action T Table := do
  s.authorize u (.table r)
  ofExcept (s.validate r.query)
  ofExcept ((Validation.checkColumns s.blueprint.catalog (r.columns.getD [])).mapError .ofRejection)
  let keys := s.exportKeys r
  let pipeline ← ofExcept ((s.blueprint.buildExport r.query keys).mapError Failure.ofBuild)
  let docs ← Backend.runExport auditCollection s.timeout pipeline
  let rows ← Backend.resolve (Resolver.resolveRows · docs)
  ofExcept ((Table.ofRows s.blueprint.catalog keys rows).mapError .crashed)

/-- The columns that descriptions of the report show. -/
def columns (s : Service) (u : User) : Action T (List Column) := do
  s.authorize u .columns
  return s.blueprint.catalog.visibleColumns

/-- Fails for a provider that is not known. -/
def checkProvider (provider : String) : Except Failure Unit :=
  if Audit.providers.contains provider then .ok ()
  else .error (.rejected (.unknownProvider provider Audit.providers))

/-- The texts that the credentials hold for each provider. -/
def pairs (s : Service) (u : User) (part : CredentialPart) :
    Action T (List (String × String)) := do
  s.authorize u (.pairs part)
  let found ← Backend.credentials (Lists.credentialFields part.suffix)
  ofExcept ((Lists.pairs part.suffix found).mapError .crashed)

/-- All passwords. -/
def passwords (s : Service) (u : User) : Action T (List PasswordItem) := do
  s.authorize u .passwords
  Backend.passwordList Resolver.allPasswords Backend.storedPasswords

/-- The texts that the credentials hold for one provider. -/
def providerValues (s : Service) (u : User) (provider : String) (part : CredentialPart) :
    Action T (List String) := do
  s.authorize u (.providerValues provider part)
  ofExcept (checkProvider provider)
  let field := Lists.credentialField provider part.suffix
  let found ← Backend.credentials [field]
  let values ← ofExcept ((Lists.fieldValues field found).mapError .crashed)
  ofExcept (Lists.texts values)

/-- The distinct passwords of one provider, in order. -/
def providerPasswords (s : Service) (u : User) (provider : String) : Action T (List String) := do
  s.authorize u (.providerPasswords provider)
  ofExcept (checkProvider provider)
  let isOfProvider (item : Value) : Bool :=
    match item.fields.get "ota_type" with
    | .text p => p == provider
    | _ => false
  let items ← Backend.passwordList (provider ++ "-passwords") do
    return (← Backend.storedPasswords).filter isOfProvider
  return (items.map PasswordItem.password).eraseDups.mergeSort fun s t => !decide (t < s)

/-- The contact addresses of all portfolios. -/
def contactEmails (s : Service) (u : User) : Action T (List String) := do
  s.authorize u .contactEmails
  let found ← Backend.distinct "portfolio contact emails" portfolioCollection "contact_email"
  let values ← ofExcept ((Lists.ordered found).mapError .crashed)
  ofExcept (Lists.texts values)

/-- The documents of a collection by identity and name. -/
def named (collection : String) : Action T (List Lists.NamedItem) := do
  ofExcept (Lists.namedItems (← Backend.findNamed collection))

/-- All portfolios. -/
def portfolios (s : Service) (u : User) : Action T (List Lists.NamedItem) := do
  s.authorize u .portfolios
  named portfolioCollection

/-- All properties. -/
def properties (s : Service) (u : User) : Action T (List Lists.NamedItem) := do
  s.authorize u .properties
  named propertyCollection

/-- Drops what the resolver has cached. -/
def clearCache (s : Service) (u : User) : Action T Unit := do
  s.authorize u .clearCache
  modify fun b => { b with resolver := b.resolver.invalidate }

/-- Performs an operation for a caller. -/
def perform (s : Service) (u : User) : Operation → Action T Answer
  | .page q => Answer.page <$> s.page u q
  | .table r => Answer.table <$> s.table u r
  | .columns => Answer.columns <$> s.columns u
  | .pairs part => Answer.pairs part <$> s.pairs u part
  | .passwords => Answer.passwords <$> s.passwords u
  | .providerValues provider part => Answer.texts <$> s.providerValues u provider part
  | .providerPasswords provider => Answer.texts <$> s.providerPasswords u provider
  | .contactEmails => Answer.texts <$> s.contactEmails u
  | .portfolios => Answer.named <$> s.portfolios u
  | .properties => Answer.named <$> s.properties u
  | .clearCache => do s.clearCache u; return .done

end Service

end AuditReport
