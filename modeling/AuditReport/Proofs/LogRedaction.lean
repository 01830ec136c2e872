import AuditReport.Proofs.LogReading

/-! What the log tells of requests for the report that do not fail. It does not depend on what the
store holds, on what is cached, or on what stored secrets decrypt to: of two applications that get
the same request and answer it with the same status, both log the same, times apart. -/

namespace AuditReport

/-! ## Entries without their times -/

/-- The moment that stands for all others. -/
def LogEntry.someTime : Calendar.Moment := Calendar.Moment.ofDay ⟨1, 1, 1, by decide⟩

/-- The entry as if it had been made at some fixed time, and in no time. -/
def LogEntry.timeless (e : LogEntry) : LogEntry :=
  { e with timestamp := someTime, processingTime := none }

namespace LogDraft

variable {d : LogDraft} {id : Int} {now : Calendar.Moment}

/-- The draft without its times. -/
def timeless (d : LogDraft) : LogDraft := { d with timestamp := none, processingTime := none }

theorem written_timeless : (d.written id now).map LogEntry.timeless =
    d.timeless.written id LogEntry.someTime := by
  have hfault : d.timeless.fault? = d.fault? := rfl
  unfold written
  rw [hfault]
  cases d.fault? with
  | some => rfl
  | none =>
    unfold entry? timeless
    cases d.method <;> cases d.path <;> cases d.status <;> rfl

theorem written_responseBody {row : LogEntry} (h : row ∈ d.written id now) :
    row.responseBody = d.responseBody := by
  unfold written at h
  split at h
  · cases h
  · unfold entry? at h
    cases hmethod : d.method <;> cases hpath : d.path <;> cases hstatus : d.status <;>
      simp [hmethod, hpath, hstatus] at h
    rw [h]

end LogDraft

theorem LogTable.nextId_timeless {t u : LogTable}
    (h : t.entries.map LogEntry.timeless = u.entries.map LogEntry.timeless) :
    t.nextId = u.nextId := by
  have hids (v : LogTable) : v.entries.map LogEntry.id =
      (v.entries.map LogEntry.timeless).map LogEntry.id := by
    rw [List.map_map]
    rfl
  rw [nextId, nextId, hids t, hids u, h]

namespace Http

/-! ## Requests for the report -/

namespace Request

variable {r : Request}

/-- The request as if it had been answered in no time. -/
def timeless (r : Request) : Request := { r with elapsed := 0.0 }

theorem timeless_elapsed (r : Request) (elapsed : Float) :
    { r with elapsed : Request }.timeless = r.timeless := rfl

theorem eq_of_timeless {s : Request} (h : r.timeless = s.timeless) :
    ∃ elapsed, s = { r with elapsed } :=
  ⟨s.elapsed, congrArg (fun t : Request => { t with elapsed := s.elapsed }) h.symm⟩

/-- A path under the report's is logged as one. -/
theorem isUnder_report (h : r.path.startsWith reportPath = true) :
    r.isUnder reportPath = true := by
  obtain ⟨rest, hpath⟩ := String.startsWith_string_iff.mp h
  refine String.startsWith_string_iff.mpr ?_
  rw [shownPath, String.toList_ofList, locationPath, String.toList_ofList, ← hpath,
    List.flatMap_append, List.filter_append]
  exact ⟨_, rfl⟩

theorem report_logged (h : r.isUnder reportPath = true) : Api.isUnlogged r = false := by
  have hapart : ∀ p ∈ Api.unloggedPaths,
      ¬ p.toList <+: reportPath.toList ∧ ¬ reportPath.toList <+: p.toList := by decide
  refine List.any_eq_false.mpr fun p hp hunder => ?_
  have hpath := String.startsWith_string_iff.mp hunder
  have hreport := String.startsWith_string_iff.mp h
  rcases List.prefix_or_prefix_of_prefix hpath hreport with hshort | hlong
  · exact (hapart p hp).1 hshort
  · exact (hapart p hp).2 hlong

end Request

namespace Api

variable {T : Type} {a b : Api T} {r : Request}

/-- What is logged of a request for the report that does not fail. -/
def reportDraft (a : Api T) (r : Request) (status : Nat) : LogDraft :=
  { a.draft r status with
    requestBody := some r.body.text, responseBody := some redacted, processingTime := some r.elapsed }

theorem logged_report {o : Outcome} (hunder : r.isUnder reportPath = true)
    (hfine : o.isRaised = false) : (a.logged r o).log.entries =
      a.log.entries ++ (a.reportDraft r o.response.status).written a.log.nextId a.now := by
  simp only [logged, entry?, Outcome.fault?_eq_none hfine, Request.report_logged hunder, hunder,
    Bool.false_eq_true, if_false, if_true]
  exact LogTable.persist_written rfl

/-- What two applications write of themselves is the same, and so is what both have logged, times
apart. All else may differ: what the store holds, what is cached, how secrets are decrypted, and the
clocks. -/
structure Alike (a b : Api T) : Prop where
  applicationId : a.applicationId = b.applicationId
  hostname : a.hostname = b.hostname
  log : a.log.entries.map LogEntry.timeless = b.log.entries.map LogEntry.timeless

theorem Alike.reportDraft_timeless (h : a.Alike b) {s : Request} (hrequest : r.timeless = s.timeless)
    (status : Nat) : (a.reportDraft r status).timeless = (b.reportDraft s status).timeless := by
  obtain ⟨elapsed, rfl⟩ := Request.eq_of_timeless hrequest
  simp only [reportDraft, draft, LogDraft.timeless, h.applicationId, h.hostname]
  rfl

end Api

/-- Both are requests for the same, or the store or the clocks are set in both. -/
inductive Event.Alike {T : Type} : Event T → Event T → Prop where
  | requested {r s : Request} (h : r.timeless = s.timeless) : Alike (requested r) (requested s)
  | stored (store other : Store) : Alike (stored store) (stored other)
  | timed (t u : T) (m n : Calendar.Moment) : Alike (timed t m) (timed u n)

namespace Exchange

variable {T : Type} {x y : Exchange T}

theorem isPreflight_alike (hrequest : x.request.timeless = y.request.timeless) :
    x.isPreflight = y.isPreflight := by
  obtain ⟨elapsed, hy⟩ := Request.eq_of_timeless hrequest
  rw [isPreflight, isPreflight, hy]
  rfl

theorem isUnder_alike (hrequest : x.request.timeless = y.request.timeless) (start : String) :
    x.request.isUnder start = y.request.isUnder start := by
  obtain ⟨elapsed, hy⟩ := Request.eq_of_timeless hrequest
  rw [hy]
  rfl

variable [LE T] [DecidableLE T] [Timeline T]

/-- A request for the report that does not fail leaves one draft for the log; one that only asks for
leave to send another leaves none. -/
theorem rows_report (hunder : x.request.isUnder reportPath = true)
    (hfine : x.response.status < 400) : x.rows =
      if x.isPreflight then []
      else (x.before.reportDraft x.request x.response.status).written x.before.log.nextId
        x.before.now := by
  cases hasked : CrossOrigin.asked? x.request with
  | some asked =>
    have hpreflight : x.isPreflight = true := by rw [isPreflight, hasked]; rfl
    rw [if_pos hpreflight, rows_preflight hpreflight]
  | none =>
    have hpreflight : x.isPreflight = false := by rw [isPreflight, hasked]; rfl
    have hraised : x.isRaised = false := by
      rw [isRaised_eq hasked, isFailure, decide_eq_false (by omega), Bool.and_false]
    obtain ⟨hanswered, hsendable⟩ : x.outcome.isRaised = false ∧ x.outcome.isSendable = true := by
      simpa [isRaised] using hraised
    have hstatus : x.response.status = x.outcome.response.status := by
      rw [response_status hasked, hsendable, if_pos rfl]
    refine rows_eq ?_
    rw [hpreflight, hstatus]
    calc x.after.log.entries
        = ((x.before.outcome x.request).2.logged x.request x.outcome).log.entries := by
          rw [after, Api.respond_sendable hasked hsendable]; rfl
      _ = _ := Api.logged_report hunder hanswered
      _ = _ := by rw [Api.outcome_frame]; rfl

theorem rows_redacted (hunder : x.request.isUnder reportPath = true)
    (hfine : x.response.status < 400) : ∀ row ∈ x.rows, row.responseBody = some Api.redacted := by
  intro row hrow
  rw [rows_report hunder hfine] at hrow
  split at hrow
  · cases hrow
  · exact LogDraft.written_responseBody hrow

section

variable (hrequest : x.request.timeless = y.request.timeless)
  (hunder : x.request.isUnder reportPath = true) (hbefore : x.before.Alike y.before)
  (hsame : x.response.status = y.response.status) (hfine : x.response.status < 400)
include hrequest hunder hbefore hsame hfine

theorem rows_alike : x.rows.map LogEntry.timeless = y.rows.map LogEntry.timeless := by
  have hunder' : y.request.isUnder reportPath = true := isUnder_alike hrequest reportPath ▸ hunder
  rw [rows_report hunder hfine, rows_report hunder' (hsame ▸ hfine), ← isPreflight_alike hrequest]
  split
  · rfl
  · rw [LogDraft.written_timeless, LogDraft.written_timeless, hbefore.reportDraft_timeless hrequest, hsame,
      LogTable.nextId_timeless hbefore.log]

theorem after_alike : x.after.Alike y.after := by
  have hnames (z : Exchange T) : z.after.applicationId = z.before.applicationId ∧
      z.after.hostname = z.before.hostname := Api.respond_names z.before z.request
  refine ⟨?_, ?_, ?_⟩
  · rw [(hnames x).1, (hnames y).1, hbefore.applicationId]
  · rw [(hnames x).2, (hnames y).2, hbefore.hostname]
  · rw [rows_spec, rows_spec, List.map_append, List.map_append, hbefore.log,
      rows_alike hrequest hunder hbefore hsame hfine]

end

end Exchange

/-! ## All requests -/

namespace Api

variable {T : Type} [LE T] [DecidableLE T] [Timeline T]

/-- Requests for the report that are answered alike, and without a failure, leave logs that are
alike, however the worlds differ that answer them, and whatever comes to be stored meanwhile. -/
theorem serve_alike {a b : Api T} (h : a.Alike b) {es fs : List (Event T)}
    (hevents : List.Forall₂ Event.Alike es fs)
    (hanswers : List.Forall₂ (fun x y => x.request.isUnder reportPath = true ∧
      x.response.status = y.response.status ∧ x.response.status < 400) (a.serve es).1 (b.serve fs).1) :
    (a.serve es).2.Alike (b.serve fs).2 := by
  induction hevents generalizing a b with
  | nil => exact h
  | @cons e f es fs hevent _ ih =>
    cases hevent with
    | requested hrequest =>
      obtain ⟨⟨hunder, hsame, hfine⟩, hrest⟩ := List.forall₂_cons.mp hanswers
      exact ih (Exchange.after_alike hrequest hunder h hsame hfine) hrest
    | stored => exact ih ⟨h.applicationId, h.hostname, h.log⟩ hanswers
    | timed => exact ih ⟨h.applicationId, h.hostname, h.log⟩ hanswers

/-- **The log does not tell what was decrypted.** A request for the report that is answered in two
worlds with the same status, and without a failure, adds the same to the log in both, times apart,
and in place of an answer that carries decrypted data there stands a mark. The worlds may differ in
what is stored, in what is cached, in what stored secrets decrypt to, and in their clocks. -/
theorem report_logged_alike {x y : Exchange T} (hrequest : x.request.timeless = y.request.timeless)
    (hunder : x.request.isUnder reportPath = true) (hbefore : x.before.Alike y.before)
    (hsame : x.response.status = y.response.status) (hfine : x.response.status < 400) :
    x.rows.map LogEntry.timeless = y.rows.map LogEntry.timeless ∧
      ∀ row ∈ x.rows ++ y.rows, row.responseBody = some redacted := by
  have hunder' := Exchange.isUnder_alike hrequest reportPath ▸ hunder
  exact ⟨Exchange.rows_alike hrequest hunder hbefore hsame hfine, List.forall_mem_append.mpr
    ⟨Exchange.rows_redacted hunder hfine, Exchange.rows_redacted hunder' (hsame ▸ hfine)⟩⟩

/-- The same export of one password, stored and decrypted differently. -/
theorem report_logged_alike_two_secrets :
    let holding (password : String) : Store :=
      { Store.empty with aggregate := fun _ _ => .ok [.object [
        ("type_of_ota", .list [.text "expedia"]),
        ("credentials", .object [("expedia_password", .text password)])]] }
    let export_ : Request := ⟨"POST", "/api/global-report/export", "",
      [("content-type", "application/json"), ("x-user-role", "super_admin"), ("x-user-id", "u-1")],
      "\x7b\"columns\":[\"otaPassword\"],\"format\":\"csv\"\x7d", some "127.0.0.1", "localhost", 1.0⟩
    let x : Exchange Int := ⟨started (holding "c") fun s => .ok s, export_⟩
    let y : Exchange Int := ⟨{ started (holding "d") fun _ => .ok "p" with
      now := Calendar.Moment.ofDay ⟨2025, 1, 1, by decide⟩ }, { export_ with elapsed := 2.0 }⟩
    x.response.bodyText = "OTA Password\nc\n" ∧ y.response.bodyText = "OTA Password\np\n" ∧
      x.rows.length = 1 ∧ x.rows.map LogEntry.timeless = y.rows.map LogEntry.timeless ∧
      ∀ row ∈ x.rows ++ y.rows, row.responseBody = some redacted := by
  intro holding export_ x y
  obtain ⟨hshown, hshown', hlogged, hstatus, hstatus'⟩ :
      x.response.bodyText = "OTA Password\nc\n" ∧ y.response.bodyText = "OTA Password\np\n" ∧
      x.rows.length = 1 ∧ x.response.status = 200 ∧ y.response.status = 200 := by decide +kernel
  have hrequest : x.request.timeless = y.request.timeless :=
    (Request.timeless_elapsed export_ 2.0).symm
  have hbefore : x.before.Alike y.before := ⟨rfl, rfl, rfl⟩
  refine ⟨hshown, hshown', hlogged, ?_⟩
  refine report_logged_alike hrequest (Request.isUnder_report (by decide +kernel)) hbefore ?_ ?_
  · rw [hstatus, hstatus']
  · rw [hstatus]
    decide

end Api

end Http

end AuditReport
