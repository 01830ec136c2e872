import AuditReport.Failure
import AuditReport.Number.Quotient
import AuditReport.Report.Row

/-! Pages of the report: reading one out of the store's answer, and its place among all pages. -/

namespace AuditReport

/-- Some documents out of a longer list, and the length of that list as the store tells it. -/
structure Page where
  documents : List Value
  total : Value
  deriving Repr

namespace Page

/-- The page of an empty store. -/
def empty : Page := ⟨[], .int 0⟩

/-- The items of a value that is to be a list. An empty value has none; a text, bytes and an object
have their characters, bytes and names. -/
def itemsOf (v : Value) : Except Crash (List Value) :=
  if v.isEmpty then .ok []
  else match v with
    | .list xs => .ok xs
    | .text s => .ok (s.toList.map fun c => .text (String.singleton c))
    | .bytes bs => .ok (bs.map fun b => .int b.toNat)
    | .object fs => .ok (fs.map fun f => .text f.1)
    | _ => .error .wrongKind

/-- The number in the first of some counts; zero without any. -/
def countOf (v : Value) : Except Crash Value :=
  if v.isEmpty then .ok (.int 0)
  else match v with
    | .list (.object d :: _) => .ok ((Document.get? d "count").getD (.int 0))
    | .list _ | .text _ | .bytes _ => .error .notADocument
    | .object _ => .error .missingField
    | _ => .error .wrongKind

/-- The page in the answer to a query for one. Only the first document of the answer counts. -/
def ofAnswer : List Value → Except Crash Page
  | [] => .ok empty
  | .object d :: _ => do
    let total ← countOf (Document.get d "totalCount")
    return ⟨← itemsOf (Document.get d "data"), total⟩
  | _ => .error .notADocument

/-- The number of pages of `limit` rows that `total` rows fill: their quotient as a double, rounded
up. -/
def count (total : Value) (limit : Nat) : Except Crash Int :=
  let ofInt (n : Int) : Except Crash Int :=
    match Number.ceilQuotient n limit with
    | some pages => .ok pages
    | none => .error .outOfRange
  match total with
  | .int n => ofInt n
  | .bool b => ofInt (if b then 1 else 0)
  | .float x =>
    match Number.Binary.ofFloat x with
    | .notANumber => .error .notAnInteger
    | .infinite _ => .error .outOfRange
    | .finite .. =>
      match Number.toInt? (x / Float.ofNat limit).ceil with
      | some pages => .ok pages
      | none => .error .outOfRange
  | _ => .error .wrongKind

end Page

/-- Where a page stands among all pages. -/
structure PageInfo where
  totalDocuments : Int
  currentPage : Int
  totalPages : Int
  pageSize : Int
  deriving DecidableEq, Repr

namespace PageInfo

/-- The place of the page that a request asks for. -/
def of (total : Value) (page limit : Int) : Except Failure PageInfo := do
  let pages ← (Page.count total limit.toNat).mapError .crashed
  let documents ← (Row.field "total_documents" total Schema.integer).mapError .malformed
  return ⟨documents, page, pages, limit⟩

/-- The place as named numbers. -/
def toDocument (p : PageInfo) : Document :=
  [("totalDocuments", .int p.totalDocuments), ("currentPage", .int p.currentPage),
    ("totalPages", .int p.totalPages), ("pageSize", .int p.pageSize)]

end PageInfo

/-- A page of report rows. -/
structure ReportPage where
  rows : List Row
  info : PageInfo
  deriving Repr

/-- The page as an answer. -/
def ReportPage.toValue (p : ReportPage) : Value :=
  .object [("data", .list (p.rows.map fun r => .object r.toDocument)),
    ("metadata", .object p.info.toDocument)]

end AuditReport
