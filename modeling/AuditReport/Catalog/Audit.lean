import AuditReport.Catalog.Basic

/-! The catalog of the global audit report: an audit joined with its status, batch, property,
credentials, portfolio, currency and service type. -/

namespace AuditReport.Audit

/-- The providers whose credentials a property holds. -/
def providers : List String := ["expedia", "agoda", "booking"]

/-- The audit's review status. -/
def statusJoin : Join := ⟨"AuditStatus", "audit_status_id", "_id", "auditStatus"⟩

/-- The audit's batch. -/
def batchJoin : Join := ⟨"AuditBatch", "batch_id", "_id", "batch"⟩

/-- The audited property. -/
def propertyJoin : Join := ⟨"Property", "property_id", "_id", "property"⟩

/-- The property's credentials. -/
def credentialsJoin : Join := ⟨"PropertyCredentials", "property._id", "property_id", "credentials"⟩

/-- The property's portfolio. -/
def portfolioJoin : Join := ⟨"Portfolio", "property.portfolio_id", "_id", "portfolio"⟩

/-- The property's currency. -/
def currencyJoin : Join := ⟨"Currency", "property.currency_id", "_id", "currency"⟩

/-- The portfolio's service type. -/
def serviceTypeJoin : Join := ⟨"ServiceType", "portfolio.service_type_id", "_id", "serviceType"⟩

/-- The joins in their fixed order. -/
def joins : List Join :=
  [statusJoin, batchJoin, propertyJoin, credentialsJoin, portfolioJoin, currencyJoin,
    serviceTypeJoin]

/-- A column with all the operators of its type, filterable and sortable. -/
def plain (key label : String) (dataType : DataType) (source : Source) (path : String)
    (joins : List Join) : Column where
  key; label; dataType; source; path; joins
  operators := dataType.operators
  filterable := true
  sortable := true
  choices := none
  virtualPaths := []
  filterOnly := false

/-- An identity that only narrows the report. -/
def identity (key label : String) (source : Source) (path : String) (joins : List Join) : Column :=
  { plain key label .id source path joins with sortable := false, filterOnly := true }

/-- An audit field with fixed values. -/
def choice (key label path : String) (choices : List String) : Column :=
  { plain key label .enumeration .audit path [] with choices := some choices }

/-- A short text that is compared only as a whole. -/
def code (key label : String) (source : Source) (path : String) (joins : List Join) : Column :=
  { plain key label .string source path joins with operators := [.eq, .isIn, .neq] }

/-- One column over the fields that each provider's credentials have under `suffix`. -/
def perProvider (key label suffix : String) : Column :=
  { plain key label .string .credentials ("credentials.ota_" ++ suffix)
      [propertyJoin, credentialsJoin] with
    operators := virtualOperators
    sortable := false
    virtualPaths := providers.map fun p => "credentials." ++ p ++ "_" ++ suffix }

/-- The columns of the report. -/
def columns : List Column :=
  [identity "auditId" "Audit ID" .audit "_id" [],
    identity "propertyId" "Property ID" .audit "property_id" [],
    identity "portfolioId" "Portfolio ID" .property "property.portfolio_id" [propertyJoin],
    plain "portfolioName" "Portfolio" .string .portfolio "portfolio.name"
      [propertyJoin, portfolioJoin],
    plain "propertyName" "Property" .string .property "property.name" [propertyJoin],
    plain "propertyIsActive" "Property Active" .boolean .property "property.is_active"
      [propertyJoin],
    code "serviceType" "Service Type" .serviceType "serviceType.type"
      [propertyJoin, portfolioJoin, serviceTypeJoin],
    choice "billingType" "Billing Type" "billing_type" ["VCC", "DB", "EBS"],
    choice "otaType" "OTA Type" "type_of_ota" providers,
    perProvider "otaId" "OTA ID" "id",
    perProvider "otaUsername" "OTA Username" "username",
    perProvider "otaPassword" "OTA Password" "password",
    plain "auditStatus" "OTA Review Status" .string .auditStatus "auditStatus.status" [statusJoin],
    plain "batchNo" "Batch Number" .string .batch "batch.batch_no" [batchJoin],
    plain "startDate" "Start Date" .date .audit "start_date" [],
    plain "endDate" "End Date" .date .audit "end_date" [],
    plain "nextDueDate" "Next Due Date" .date .property "property.next_due_date" [propertyJoin],
    code "currency" "Currency" .currency "currency.code" [propertyJoin, currencyJoin],
    code "currencySymbol" "Currency Symbol" .currency "currency.symbol"
      [propertyJoin, currencyJoin],
    plain "amountCollectable" "Amount Collectable" .number .audit "amount_collectable" [],
    plain "amountConfirmed" "Amount Confirmed" .number .audit "amount_confirmed" [],
    plain "portfolioContactEmail" "Portfolio Contact Email" .string .portfolio
      "portfolio.contact_email" [propertyJoin, portfolioJoin],
    plain "isArchived" "Archived" .boolean .audit "is_archived" [],
    plain "createdAt" "Created At" .date .audit "created_at" []]

/-- The declarations do not contradict one another. -/
theorem check_columns : Catalog.check columns joins = .ok () := by rfl

/-- The catalog of the report. -/
def catalog : Catalog := ⟨columns, joins, check_columns⟩

/-- Columns that every report row displays, whatever the request names. -/
def displayColumns : List String :=
  ["propertyName", "portfolioName", "currency", "auditStatus", "batchNo", "serviceType",
    "portfolioContactEmail", "nextDueDate"]

/-- Columns whose joins every row needs: the credentials are resolved row by row. -/
def implicitColumns : List String := ["otaId"]

end AuditReport.Audit
