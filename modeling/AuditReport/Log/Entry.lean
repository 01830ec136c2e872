import AuditReport.Number.Word
import AuditReport.Text.Surrogate
import AuditReport.Value

/-! Entries of the request log: one request and what came of it. -/

namespace AuditReport

/-- What is known of a request when it is logged. -/
structure LogDraft where
  /-- The number of the entry; without one, the next free number. -/
  id : Option Int
  /-- The time of the request; without one, the time at which it is logged. -/
  timestamp : Option Calendar.Moment
  method : Option String
  path : Option String
  status : Option Int
  clientIp : Option String
  requestBody : Option String
  responseBody : Option String
  /-- Milliseconds. -/
  processingTime : Option Float
  userAgent : Option String
  userId : Option String
  userRole : Option String
  errorType : Option String
  hostname : Option String
  applicationId : Option String
  deriving Repr

/-- A logged request. -/
structure LogEntry where
  /-- Unless a draft has a number of its own, entries are numbered from one in the order in which
  they were made. -/
  id : Int
  timestamp : Calendar.Moment
  method : String
  path : String
  status : Int
  clientIp : Option String
  requestBody : Option String
  responseBody : Option String
  processingTime : Option Float
  userAgent : Option String
  userId : Option String
  userRole : Option String
  errorType : Option String
  hostname : Option String
  applicationId : Option String
  deriving Repr

namespace LogEntry

/-- A nullable text. -/
def textOrNull : Option String → Value
  | some s => .text s
  | none => .null

/-- The entry as named values. -/
def toDocument (e : LogEntry) : Document :=
  [("id", .int e.id), ("timestamp", .moment e.timestamp), ("method", .text e.method),
    ("path", .text e.path), ("status_code", .int e.status), ("client_ip", textOrNull e.clientIp),
    ("request_body", textOrNull e.requestBody), ("response_body", textOrNull e.responseBody),
    ("processing_time", match e.processingTime with
      | some x => .float x
      | none => .null),
    ("user_agent", textOrNull e.userAgent), ("user_id", textOrNull e.userId),
    ("user_role", textOrNull e.userRole), ("error_type", textOrNull e.errorType),
    ("hostname", textOrNull e.hostname), ("application_id", textOrNull e.applicationId)]

end LogEntry

namespace LogDraft

/-- The draft of which nothing is known. -/
def blank : LogDraft :=
  ⟨none, none, none, none, none, none, none, none, none, none, none, none, none, none, none⟩

/-- Why a value cannot be handed to the table. -/
inductive Unfit where
  /-- A number that no word of 64 bits can hold. -/
  | outOfRange
  /-- A text with a lone surrogate. -/
  | unencodable
  deriving DecidableEq, Repr

/-- What is wrong with a number. -/
def numberFault? : Option Int → Option Unfit
  | some n => if Number.isWord n then none else some .outOfRange
  | none => none

/-- What is wrong with a text. -/
def textFault? : Option String → Option Unfit
  | some s => if Text.Surrogate.isPaired s then none else some .unencodable
  | none => none

/-- The first value of a draft, in the order of the table's columns, that cannot be handed to the
table. -/
def fault? (d : LogDraft) : Option Unfit :=
  [numberFault? d.id, textFault? d.method, textFault? d.path, numberFault? d.status,
    textFault? d.clientIp, textFault? d.requestBody, textFault? d.responseBody,
    textFault? d.userAgent, textFault? d.userId, textFault? d.userRole, textFault? d.errorType,
    textFault? d.hostname, textFault? d.applicationId].findSome? fun fault => fault

/-- A span of time as the table keeps it: there is no not-a-number, and zero has no sign. -/
def keptSpan (x : Float) : Option Float :=
  if x.isNaN then none else some (if x == 0.0 then 0.0 else x)

/-- The entry that a draft makes at a time under a number. There is none without method, path and
status. -/
def entry? (d : LogDraft) (id : Int) (now : Calendar.Moment) : Option LogEntry := do
  let method ← d.method
  let path ← d.path
  let status ← d.status
  return {
    id, method, path, status
    timestamp := { d.timestamp.getD now with offset := none }
    clientIp := d.clientIp, requestBody := d.requestBody, responseBody := d.responseBody
    processingTime := d.processingTime.bind keptSpan, userAgent := d.userAgent, userId := d.userId
    userRole := d.userRole, errorType := d.errorType, hostname := d.hostname
    applicationId := d.applicationId }

end LogDraft

end AuditReport
