import AuditReport.Export.File
import AuditReport.Http.CrossOrigin
import AuditReport.Http.Host
import AuditReport.Http.Input
import AuditReport.Http.Route

/-! The report and its request log as one application that answers requests. Every request makes one
entry in the log, apart from those under the log's own paths that succeed and those that only ask
whether another origin may send them. Answers with decrypted data are not logged. -/

namespace AuditReport.Http

/-- The application: the report, what it works on, the log, and the time. -/
structure Api (T : Type) where
  service : Service
  backend : Backend T
  log : LogTable
  now : Calendar.Moment
  applicationId : String
  hostname : String

/-- What came of a request. -/
inductive Outcome where
  /-- An answer, be it that nothing was found. -/
  | answered (r : Response)
  | invalid (issues : List Schema.Issue)
  | refused (status : Nat) (detail : String)
  | failed (f : Failure)
  deriving Repr

namespace Outcome

/-- What a fault of the input comes to. -/
def ofInputFault : InputFault → Outcome
  | .invalid issues => if issues.any isUntellable then failed (.crashed .tooDeep) else invalid issues
  | .unreadableBody => refused 400 "There was an error parsing the body"

/-- The failure is one of the program itself. -/
def isCrash : Outcome → Bool
  | failed f => f.status?.isNone
  | _ => false

/-- The answer. Of a failure of the program itself nothing is told. -/
def response : Outcome → Response
  | answered r => r
  | invalid issues => Response.detail 422 (issuesValue issues)
  | refused status detail => Response.detail status (.text detail)
  | failed f => match f.status? with
    | some status => Response.detail status (.text f.message)
    | none => Response.detail 500 (.text "Internal Server Error")

/-- The answer has a text that can be sent. -/
def isSendable (o : Outcome) : Bool := Text.Surrogate.isPaired o.response.bodyText

/-- How a fault is logged: its name and what is known of it. -/
def fault? : Outcome → Option (String × Value)
  | answered _ => none
  | invalid issues => some ("RequestValidationError", issuesValue issues)
  | refused _ detail =>
    some ("HTTPException", .object [("detail", .text detail), ("headers", .null)])
  | failed f =>
    let known := match f.status? with
      | some _ => [("detail", Value.text f.message)]
      | none => [("error", .text f.message), ("type", .text f.name), ("traceback", .text "")]
    some (f.name, .object known)

end Outcome

namespace Api

variable {T : Type} [LE T] [DecidableLE T] [Timeline T]

/-! ## Endpoints -/

/-- The caller, as the gateway names them. -/
def caller (r : Request) : User := ⟨r.header? "x-user-id", r.header? "x-user-role"⟩

/-- Performs an operation and makes an answer of what it yields. -/
def perform (a : Api T) (r : Request) (o : Operation) (answer : Answer → Except Crash Response) :
    Outcome × Api T :=
  let (result, backend) := (a.service.perform (caller r) o).run.run a.backend
  let outcome := match result with
    | .error f => .failed f
    | .ok found => match answer found with
      | .error c => .failed (.crashed c)
      | .ok response => .answered response
  (outcome, { a with backend })

/-- What an operation yields, as an answer. -/
def plainAnswer : Answer → Except Crash Response
  | .done => .ok ⟨204, [], .empty⟩
  | found => .ok (Response.json 200 found.toValue)

/-- A table as a file to be saved. -/
def fileAnswer (format : ExportFormat) (today : Calendar.Day) : Answer → Except Crash Response
  | .table t => (format.render t).map fun content =>
    ⟨200, [("content-disposition", "attachment; filename=" ++ format.fileName today.text),
        ("content-type", format.mediaType)],
      match content with
      | .text s => .text s
      | .sheet s => .sheet s⟩
  | found => plainAnswer found

/-- The providers that paths may name. -/
def provider (name : String) : Except InputFault String :=
  Input.pathPart "provider" name
    (Schema.choice fun s => if Audit.providers.contains s then some s else none)

/-- What a fault of a question to the log comes to. -/
def ofLogFault : LogTable.Fault → Outcome
  | .unfit .outOfRange => .failed (.crashed .outOfRange)
  | .unfit .unencodable => .failed (.crashed .unencodable)
  | .overlongPattern => .refused 500 "Error fetching logs: LIKE or GLOB pattern too complex"

/-- The log entries that a request asks for. -/
def logPage (a : Api T) (q : Input.LogRequest) : Outcome :=
  let f := q.filter
  if (f.statusMin.any fun low => f.statusMax.any (· < low)) then
    .refused 400 "status_min cannot be greater than status_max"
  else match a.log.page f q.limit q.offset a.now, a.log.count f a.now with
    | .ok entries, .ok count =>
      let response := Response.json 200 (.list (entries.map fun e => .object e.toDocument))
      .answered (((response.withHeader "x-total-count" (toString count)).withHeader
        "x-page-size" (toString q.limit)).withHeader "x-page-offset" (toString q.offset))
    | .error f, _ | _, .error f => ofLogFault f

/-- The log entry with a number. -/
def logEntry (a : Api T) (id : Int) : Outcome :=
  match a.log.find id with
  | .error f => ofLogFault f
  | .ok none => .refused 404 "Log not found"
  | .ok (some e) => .answered (Response.json 200 (.object e.toDocument))

/-- Goes on with what was read from a request, unless that was at fault. -/
def withInput {α : Type} (a : Api T) (input : Except InputFault α) (go : α → Outcome × Api T) :
    Outcome × Api T :=
  match input with
  | .error e => (Outcome.ofInputFault e, a)
  | .ok x => go x

/-- What comes of a request to an endpoint. -/
def reach (a : Api T) (r : Request) : Endpoint → Outcome × Api T
  | .page => a.withInput (Input.body r (ReportQuery.read .notABody)) fun q =>
    a.perform r (.page q) plainAnswer
  | .file => a.withInput (Input.body r (ExportRequest.read .notABody)) fun q =>
    a.perform r (.table q) (fileAnswer q.format a.now.day)
  | .operation o => a.perform r o plainAnswer
  | .ofProvider name o => a.withInput (provider name) fun p => a.perform r (o p) plainAnswer
  | .logPage => a.withInput (Input.logRequest r) fun q => (a.logPage q, a)
  | .logEntry id => a.withInput (Input.pathPart "log_id" id Schema.integer) fun n =>
    (a.logEntry n, a)
  | .documentation =>
    (.answered ⟨200, [("content-type", "text/html; charset=utf-8")], .text ""⟩, a)

/-- Where a request finds what it asked for under another path: on the host that it names, if it
names a proper one. -/
def redirect (r : Request) (path : String) : Response :=
  let host := ((r.header? "host").filter Host.isProper).getD r.server
  let query := if r.query.isEmpty then "" else "?" ++ r.query
  ⟨307, [("location", locationText ("http://" ++ host ++ locationPath path ++ query))], .empty⟩

/-- What comes of a request. -/
def outcome (a : Api T) (r : Request) : Outcome × Api T :=
  match destination r.method r.path with
  | .endpoint e => a.reach r e
  | .otherMethods methods =>
    let response := Response.detail 405 (.text "Method Not Allowed")
    (.answered (response.withHeader "allow" (", ".intercalate methods)), a)
  | .elsewhere path => (.answered (redirect r path), a)
  | .nowhere => (.answered (Response.detail 404 (.text "Not Found")), a)

/-! ## The log -/

/-- The paths under which only faults are logged. -/
def unloggedPaths : List String := [logPath, "/api/docs", "/api/redoc", "/api/openapi.json"]

/-- Only faults of the request are logged. -/
def isUnlogged (r : Request) : Bool := unloggedPaths.any r.isUnder

/-- What stands for answers that carry decrypted data. -/
def redacted : String := "[redacted]"

/-- What is logged of every request. -/
def draft (a : Api T) (r : Request) (status : Nat) : LogDraft :=
  { LogDraft.blank with
    timestamp := some a.now, method := some r.method, path := some r.shownPath
    status := some status, clientIp := r.client, userAgent := r.header? "user-agent"
    userId := r.header? "x-user-id", userRole := r.header? "x-user-role"
    hostname := some a.hostname, applicationId := some a.applicationId }

/-- The body of a request as it is logged with a fault. -/
def capturedBody (r : Request) : String :=
  if isUnlogged r || r.body.text.isEmpty then "Request body not captured" else r.body.text

/-- The entry that a request makes, if it makes one. -/
def entry? (a : Api T) (r : Request) (o : Outcome) : Option LogDraft :=
  let response := o.response
  let draft := a.draft r response.status
  match o.fault? with
  | some (name, known) =>
    some { draft with
      requestBody := some (capturedBody r), responseBody := some (Json.write Json.indented known)
      errorType := some name }
  | none =>
    if isUnlogged r then none
    else some { draft with
      requestBody := some r.body.text
      responseBody := some (if r.isUnder reportPath then redacted else response.bodyText)
      processingTime := some r.elapsed }

/-- Logs a request. -/
def logged (a : Api T) (r : Request) (o : Outcome) : Api T :=
  match a.entry? r o with
  | some d => { a with log := (a.log.persist d a.now).2 }
  | none => a

/-! ## Answers -/

/-- The answer as it is sent: readable for other origins unless the program failed, and without its
body to a request for the headers alone. -/
def sent (r : Request) (o : Outcome) : Response :=
  let response := if o.isCrash then o.response else CrossOrigin.expose r o.response
  if r.method = "HEAD" then { response with body := .empty } else response

/-- Answers a request. An answer that cannot be sent fails after a fault that it tells of was
logged. -/
def respond (a : Api T) (r : Request) : Response × Api T :=
  match CrossOrigin.asked? r with
  | some (origin, method) => (CrossOrigin.answer origin method, a)
  | none =>
    let (o, a) := a.outcome r
    if o.isSendable then (sent r o, a.logged r o)
    else
      let a := if o.fault?.isSome then a.logged r o else a
      let failure := Outcome.failed (.crashed .unencodable)
      (sent r failure, a.logged r failure)

end Api

end AuditReport.Http
