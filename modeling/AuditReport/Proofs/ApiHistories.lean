import AuditReport.Catalog.Audit
import AuditReport.Http.Api

/-! Histories of the application: requests, changes of what the store holds, and settings of the
clocks, in any order. A request changes nothing but the backend and the log. -/

namespace AuditReport.Http

variable {T : Type}

/-- The report on audits as it starts: nothing has been asked, read or logged yet. -/
def Api.started (store : Store) (decrypt : String → Except DecryptionError String) : Api Int where
  service := ⟨Audit.blueprint, superAdminsOnly, 30000⟩
  backend := ⟨store, [], Resolver.fresh decrypt ⟨2, none⟩ 300 300, 7⟩
  log := .empty
  now := Calendar.Moment.ofDay ⟨2024, 5, 6, by decide⟩
  applicationId := "report"
  hostname := "host"

/-- What happens around the application. -/
inductive Event (T : Type) where
  | requested (r : Request)
  | stored (store : Store)
  /-- The clock of the caches and that of the calendar are set. -/
  | timed (now : T) (moment : Calendar.Moment)

/-- A request, and the application that it finds. -/
structure Exchange (T : Type) where
  before : Api T
  request : Request

variable [LE T] [DecidableLE T] [Timeline T]

namespace Exchange

def outcome (x : Exchange T) : Outcome := (x.before.outcome x.request).1

def response (x : Exchange T) : Response := (x.before.respond x.request).1

/-- The application that the request leaves. -/
def after (x : Exchange T) : Api T := (x.before.respond x.request).2

/-- The entries that the request adds to the log. -/
def rows (x : Exchange T) : List LogEntry :=
  x.after.log.entries.drop x.before.log.entries.length

end Exchange

namespace Api

/-- What an event has the application answer, and the application that it leaves. -/
def react (a : Api T) : Event T → List (Exchange T) × Api T
  | .requested r => ([⟨a, r⟩], (a.respond r).2)
  | .stored store => ([], { a with backend := { a.backend with store } })
  | .timed now moment => ([], { a with backend := { a.backend with now }, now := moment })

/-- All that is answered in the course of a history, and the application at its end. -/
def serve (a : Api T) : List (Event T) → List (Exchange T) × Api T
  | [] => ([], a)
  | e :: rest =>
    let first := a.react e
    let last := serve first.2 rest
    (first.1 ++ last.1, last.2)

variable (a : Api T) (r : Request)

theorem reach_frame (e : Endpoint) :
    (a.reach r e).2 = { a with backend := (a.reach r e).2.backend } := by
  cases e with
  | page | file | ofProvider | logPage | logEntry =>
    simp only [reach, withInput]
    split <;> rfl
  | operation | documentation => rfl

theorem outcome_frame : (a.outcome r).2 = { a with backend := (a.outcome r).2.backend } := by
  unfold outcome
  split
  · exact reach_frame a r _
  all_goals rfl

end Api

end AuditReport.Http
