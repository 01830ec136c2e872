import AuditReport.Catalog.Audit
import AuditReport.Request.Scalar
import AuditReport.Value.Text

/-! Report rows: one audit with its property, portfolio, currency, service type and credentials. A
row is read from a joined document and the texts of its decrypted passwords. -/

namespace AuditReport

/-- One row of the report. -/
structure Row where
  auditId : String
  portfolioId : Option String
  portfolioName : String
  propertyId : Option String
  propertyName : String
  propertyIsActive : Option Bool
  serviceType : Option String
  billingType : Option String
  otaType : List String
  otaId : Option String
  otaUsername : Option String
  otaPassword : Option String
  expediaId : Option String
  expediaUsername : Option String
  agodaId : Option String
  agodaUsername : Option String
  bookingId : Option String
  bookingUsername : Option String
  auditStatus : Option String
  batchNo : Option String
  startDate : Option Calendar.Moment
  endDate : Option Calendar.Moment
  nextDueDate : Option Calendar.Moment
  currency : String
  currencySymbol : Option String
  amountCollectable : Option Float
  amountConfirmed : Option Float
  portfolioContactEmail : Option String
  isArchived : Bool
  createdAt : Option Calendar.Moment
  deriving Repr

namespace Row

open Schema

/-- A nullable value. -/
def optional {α : Type} (wrap : α → Value) : Option α → Value
  | some a => wrap a
  | none => .null

/-- The row's fields under their names in answers, which are the keys of the report's columns and
of the credentials of each provider. -/
def toDocument (r : Row) : Document :=
  [("auditId", .text r.auditId), ("portfolioId", optional .text r.portfolioId),
    ("portfolioName", .text r.portfolioName), ("propertyId", optional .text r.propertyId),
    ("propertyName", .text r.propertyName), ("propertyIsActive", optional .bool r.propertyIsActive),
    ("serviceType", optional .text r.serviceType), ("billingType", optional .text r.billingType),
    ("otaType", .list (r.otaType.map .text)), ("otaId", optional .text r.otaId),
    ("otaUsername", optional .text r.otaUsername), ("otaPassword", optional .text r.otaPassword),
    ("expediaId", optional .text r.expediaId),
    ("expediaUsername", optional .text r.expediaUsername), ("agodaId", optional .text r.agodaId),
    ("agodaUsername", optional .text r.agodaUsername), ("bookingId", optional .text r.bookingId),
    ("bookingUsername", optional .text r.bookingUsername),
    ("auditStatus", optional .text r.auditStatus), ("batchNo", optional .text r.batchNo),
    ("startDate", optional .moment r.startDate), ("endDate", optional .moment r.endDate),
    ("nextDueDate", optional .moment r.nextDueDate), ("currency", .text r.currency),
    ("currencySymbol", optional .text r.currencySymbol),
    ("amountCollectable", optional .float r.amountCollectable),
    ("amountConfirmed", optional .float r.amountConfirmed),
    ("portfolioContactEmail", optional .text r.portfolioContactEmail),
    ("isArchived", .bool r.isArchived), ("createdAt", optional .moment r.createdAt)]

/-! ## Reading parts of a joined document -/

/-- A related document; anything but an object counts as an empty one. -/
def part (d : Document) (name : String) : Document := (d.get name).fields

/-- The text of a value; null and the empty text have none. -/
def textOf? : Value → Option String
  | .null => none
  | .text s => if s.isEmpty then none else some s
  | v => some v.shown

/-- A value that is to be read as a text, the empty text in the place of an empty value. -/
def orEmpty (v : Value) : Value := if v.isEmpty then .text "" else v

/-- The known providers that an audit names, in lower case, each once and in the order of its list.
Anything but a list names none. -/
def providersOf : Value → List String
  | .list items =>
    ((items.map fun v => Text.fold v.shown).filter (Audit.providers.contains ·)).eraseDups
  | _ => []

/-- The providers of an audit. -/
def providers (d : Document) : List String := providersOf (d.get "type_of_ota")

/-- What a property's credentials hold for a provider. -/
def credential (d : Document) (provider suffix : String) : Value :=
  (part d "credentials").get (provider ++ "_" ++ suffix)

/-- The texts that are there, joined. -/
def joined (texts : List (Option String)) : Option String :=
  match texts.filterMap id with
  | [] => none
  | present => some (", ".intercalate present)

/-- What the listed providers' credentials hold, joined. -/
def joinedCredentials (d : Document) (suffix : String) : Option String :=
  joined ((providers d).map fun p => textOf? (credential d p suffix))

/-- The stored passwords of a document that are worth decrypting. -/
def ciphertexts (d : Document) : List String :=
  (providers d).filterMap fun p =>
    match credential d p "password" with
    | .text s => if s.isEmpty then none else some s
    | _ => none

/-- What a stored password stands for, given the decrypted ones. A value that makes no key has no
place among them. -/
def plaintext (plaintexts : List (String × String)) : Value → Except Unit (Option String)
  | .text s => .ok (plaintexts.lookup s)
  | v => if v.isScalar then .ok none else .error ()

/-- The passwords of the listed providers, joined. It fails if one of them is a list or an object
that is not empty. -/
def passwords (d : Document) (plaintexts : List (String × String)) :
    Except Unit (Option String) := do
  let stored := ((providers d).map fun p => credential d p "password").filter (!·.isEmpty)
  let found ← stored.mapM (plaintext plaintexts)
  return joined (found.map fun p => p.filter (!·.isEmpty))

/-- A named value, read under its name. -/
def field {α : Type} (name : String) (v : Value) (read : Reader α) : Reading α :=
  Reading.under (.field name) (read v)

/-- Reads a row, given what the passwords come to. Faults are named by the stored field names. -/
def read (d : Document) (password : Option String) : Reading Row :=
  let property := part d "property"
  let portfolio := part d "portfolio"
  let currency := part d "currency"
  let text (name : String) (v : Value) := field name v (nullable Schema.text)
  let filled (name : String) (v : Value) := field name (orEmpty v) Schema.text
  let moment (name : String) (v : Value) := field name v (nullable Schema.moment)
  let amount (name : String) := field name (d.get name) (nullable Schema.double)
  let own (provider suffix : String) := textOf? (credential d provider suffix)
  let portfolioName := filled "portfolio_name" (portfolio.get "name")
  let propertyName := filled "property_name" (property.get "name")
  let isActive := field "property_is_active" (property.get "is_active") (nullable boolean)
  let serviceType := text "service_type" ((part d "serviceType").get "type")
  let billingType := text "billing_type" (d.get "billing_type")
  let auditStatus := text "audit_status" ((part d "auditStatus").get "status")
  let startDate := moment "start_date" (d.get "start_date")
  let endDate := moment "end_date" (d.get "end_date")
  let nextDueDate := moment "next_due_date" (property.get "next_due_date")
  let code := filled "currency" (currency.get "code")
  let symbol := text "currency_symbol" (currency.get "symbol")
  let collectable := amount "amount_collectable"
  let confirmed := amount "amount_confirmed"
  let email := text "portfolio_contact_email" (portfolio.get "contact_email")
  let createdAt := moment "created_at" (d.get "created_at")
  let row := portfolioName.map fun portfolioName propertyName propertyIsActive serviceType
      billingType auditStatus startDate endDate nextDueDate currency currencySymbol
      amountCollectable amountConfirmed portfolioContactEmail createdAt =>
    ({ auditId := (textOf? (d.get "_id")).getD ""
       portfolioId := textOf? (property.get "portfolio_id")
       propertyId := textOf? (d.get "property_id")
       otaType := providers d
       otaId := joinedCredentials d "id"
       otaUsername := joinedCredentials d "username"
       otaPassword := password
       expediaId := own "expedia" "id", expediaUsername := own "expedia" "username"
       agodaId := own "agoda" "id", agodaUsername := own "agoda" "username"
       bookingId := own "booking" "id", bookingUsername := own "booking" "username"
       batchNo := textOf? ((part d "batch").get "batch_no")
       isArchived := !(d.get "is_archived").isEmpty
       portfolioName, propertyName, propertyIsActive, serviceType, billingType, auditStatus,
       startDate, endDate, nextDueDate, currency, currencySymbol, amountCollectable,
       amountConfirmed, portfolioContactEmail, createdAt } : Row)
  let row := Reading.app (Reading.app (Reading.app row propertyName) isActive) serviceType
  let row := Reading.app (Reading.app (Reading.app row billingType) auditStatus) startDate
  let row := Reading.app (Reading.app (Reading.app row endDate) nextDueDate) code
  let row := Reading.app (Reading.app (Reading.app row symbol) collectable) confirmed
  Reading.app (Reading.app row email) createdAt

end Row

end AuditReport
