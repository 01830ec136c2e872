import AuditReport.Proofs.RequestLog

/-! What is left of requests under the paths that only log faults: the log itself and the
documentation. Such a request leaves the log as it is, unless it reaches an endpoint that fails. -/

namespace AuditReport.Http

open Text.Surrogate (isPaired)

/-- Some route takes both the path and the method. -/
def Destination.isEndpoint : Destination → Bool
  | endpoint _ => true
  | otherMethods _ | elsewhere _ | nowhere => false

/-- No endpoint takes the method of requests that ask for leave to send another. -/
theorem destination_asking (path : String) : (destination "OPTIONS" path).isEndpoint = false := by
  have hmethods : ∀ r ∈ routes, r.methods.contains "OPTIONS" = false := by decide
  unfold destination
  dsimp only
  split
  · next hfound =>
    have hroute := List.mem_of_find?_eq_some hfound
    obtain ⟨r, hr, hmatched⟩ := List.mem_filterMap.mp hroute
    obtain ⟨_, -, hsame⟩ := Option.map_eq_some_iff.mp hmatched
    cases hsame
    have htaken := List.find?_some hfound
    rw [hmethods _ hr] at htaken
    cases htaken
  · rfl
  · split <;> rfl

/-- At an endpoint, the status of the answer tells whether an exception led to it. -/
theorem Outcome.AtEndpoint.isRaised_eq {o : Outcome} (h : o.AtEndpoint) :
    o.isRaised = decide (400 ≤ o.response.status) := by
  cases h with
  | @answered response h =>
    have hfine : ∀ n ∈ [200, 204], false = decide (400 ≤ n) := by decide
    exact hfine response.status h
  | invalid => rfl
  | @refused status h detail =>
    have hfailed : ∀ n ∈ [400, 404, 500], true = decide (400 ≤ n) := by decide
    exact hfailed status h
  | failed f => cases f <;> rfl

namespace Api

variable {T : Type} {a : Api T} {r : Request}

theorem log_kept_of_fine {o : Outcome} (hunlogged : isUnlogged r = true)
    (hfine : o.isRaised = false) : (a.logged r o).log = a.log := by
  simp only [logged, entry?, Outcome.fault?_eq_none hfine, hunlogged, if_true]

variable [LE T] [DecidableLE T] [Timeline T]

theorem outcome_ends (h : (destination r.method r.path).isEndpoint = true) :
    (a.outcome r).1.AtEndpoint := by
  unfold outcome
  split
  · exact reach_ends _
  all_goals next hdestination => rw [hdestination] at h; cases h

/-- Away from all endpoints the answer is one that can be sent. -/
theorem outcome_fine (h : (destination r.method r.path).isEndpoint = false) :
    (a.outcome r).1.isRaised = false ∧ (a.outcome r).1.isSendable = true := by
  unfold outcome
  split
  · next hdestination =>
    rw [hdestination] at h
    cases h
  · refine ⟨rfl, ?_⟩
    show isPaired (Response.detail 405 (.text "Method Not Allowed")).bodyText = true
    decide
  · refine ⟨rfl, ?_⟩
    show isPaired "" = true
    decide
  · refine ⟨rfl, ?_⟩
    show isPaired (Response.detail 404 (.text "Not Found")).bodyText = true
    decide

end Api

namespace Exchange

variable {T : Type} [LE T] [DecidableLE T] [Timeline T] {x : Exchange T}

/-- The request reaches an endpoint, and the answer tells of a failure. -/
def isFailure (x : Exchange T) : Bool :=
  (destination x.request.method x.request.path).isEndpoint && decide (400 ≤ x.response.status)

theorem preflight_isFailure (h : x.isPreflight = true) : x.isFailure = false := by
  have hmethod : x.request.method = "OPTIONS" := by
    unfold isPreflight CrossOrigin.asked? at h
    split at h
    · assumption
    · cases h
  rw [isFailure, hmethod, destination_asking, Bool.false_and]

section

variable (hasked : CrossOrigin.asked? x.request = none)
include hasked

theorem response_status : x.response.status =
    if x.outcome.isSendable then x.outcome.response.status else 500 := by
  cases hsendable : x.outcome.isSendable with
  | true => rw [response, Api.respond_sendable hasked hsendable, Api.sent_status]; rfl
  | false =>
    cases hraised : x.outcome.isRaised with
    | true =>
      rw [response, Api.respond_raised_unsendable hasked hsendable hraised, Api.sent_status]
      rfl
    | false =>
      rw [response, Api.respond_answer_unsendable hasked hsendable hraised, Api.sent_status]
      rfl

/-- Exceptions are what endpoints fail by, and nothing else. -/
theorem isRaised_eq : x.isRaised = x.isFailure := by
  unfold isRaised isFailure
  rw [response_status hasked]
  cases hdestination : (destination x.request.method x.request.path).isEndpoint with
  | true =>
    have hraised : x.outcome.isRaised = decide (400 ≤ x.outcome.response.status) :=
      (Api.outcome_ends hdestination).isRaised_eq
    cases x.outcome.isSendable with
    | true => simp [hraised]
    | false => simp
  | false =>
    obtain ⟨hfine, hsendable⟩ : x.outcome.isRaised = false ∧ x.outcome.isSendable = true :=
      Api.outcome_fine hdestination
    simp [hfine, hsendable]

end

theorem rows_unchanged (h : x.after.log = x.before.log) : x.rows = [] := by
  rw [rows, h, List.drop_length]

/-- A request under a path that only logs faults leaves the log as it is if it does not fail. -/
theorem log_unchanged (hunlogged : Api.isUnlogged x.request = true)
    (hfine : x.isFailure = false) : x.after.log = x.before.log := by
  cases hasked : CrossOrigin.asked? x.request with
  | some asked => rw [after, Api.respond, hasked]
  | none =>
    rw [← isRaised_eq hasked, isRaised, Bool.or_eq_false_iff, Bool.not_eq_false'] at hfine
    obtain ⟨hraised, hsendable⟩ := hfine
    calc x.after.log
        = ((x.before.outcome x.request).2.logged x.request x.outcome).log := by
          rw [after, Api.respond_sendable hasked hsendable]; rfl
      _ = (x.before.outcome x.request).2.log := Api.log_kept_of_fine hunlogged hraised
      _ = x.before.log := Api.outcome_log x.before x.request

end Exchange

namespace Api

variable {T : Type} [LE T] [DecidableLE T] [Timeline T]

theorem serve_log_unchanged (a : Api T) (es : List (Event T))
    (h : ∀ x ∈ (a.serve es).1, isUnlogged x.request = true ∧ x.isFailure = false) :
    (a.serve es).2.log = a.log := by
  induction es generalizing a with
  | nil => rfl
  | cons e rest ih =>
    obtain ⟨hfirst, hrest⟩ := List.forall_mem_append.mp h
    refine (ih (a.react e).2 hrest).trans ?_
    cases e with
    | requested r =>
      obtain ⟨hunlogged, hfine⟩ := hfirst ⟨a, r⟩ List.mem_cons_self
      exact Exchange.log_unchanged hunlogged hfine
    | stored | timed => rfl

/-- **Reading the log adds to it only by failing.** In the course of a history, a request under a
path that only logs faults leaves the log as it is, unless it reaches an endpoint that fails: that
failure makes an entry as any other does, and a second one if there is no way to tell it. Without
such failures nothing is logged at all. -/
theorem reading_logs_failures_only (a : Api T) (es : List (Event T)) :
    (∀ x ∈ (a.serve es).1, isUnlogged x.request = true → x.isFailure = false →
        x.after.log = x.before.log) ∧
      (a.Encodable → (∀ r, .requested r ∈ es → r.Encodable) →
        ∀ x ∈ (a.serve es).1, isUnlogged x.request = true → x.isFailure = true →
          (x.isRaisedTwice = false →
            ∃ row, x.rows = [row] ∧ Tells row x.request x.response.status true) ∧
          (x.isRaisedTwice = true →
            x.response.status = 500 ∧ ∃ first second, x.rows = [first, second] ∧
              Tells first x.request x.outcome.response.status true ∧
              Tells second x.request 500 true)) ∧
      ((∀ x ∈ (a.serve es).1, isUnlogged x.request = true ∧ x.isFailure = false) →
        (a.serve es).2.log = a.log) := by
  refine ⟨fun x _ => Exchange.log_unchanged, ?_, serve_log_unchanged a es⟩
  intro ha hes x hx hunlogged hfailure
  obtain ⟨hbefore, hrequest⟩ := serve_encodable ha hes x hx
  have hasked : CrossOrigin.asked? x.request = none := by
    refine Option.not_isSome_iff_eq_none.mp fun hpreflight => ?_
    rw [Exchange.preflight_isFailure hpreflight] at hfailure
    cases hfailure
  have hraised : x.isRaised = true := (Exchange.isRaised_eq hasked).trans hfailure
  refine ⟨fun honce => ?_, Exchange.rows_written_twice hbefore hrequest hasked⟩
  exact hraised ▸ Exchange.row_written hbefore hrequest hasked (.inl hraised) honce

/-- A list of entries, a method that the log does not take, and an entry that is not there. -/
theorem reading_logs_failures_only_three :
    let a := started Store.empty fun _ => .error .noSeparator
    let listing : Request := ⟨"GET", "/api/logs/", "", [], "", none, "localhost", 1.0⟩
    let sending : Request := ⟨"POST", "/api/logs/", "", [], "", none, "localhost", 1.0⟩
    let missing : Request := ⟨"GET", "/api/logs/7", "", [], "", none, "localhost", 1.0⟩
    ∃ row, (a.serve [.requested listing, .requested sending, .requested missing]).2.log.entries =
        [row] ∧ Tells row missing 404 true := by
  intro a listing sending missing
  have ha : a.Encodable := ⟨by decide, by decide⟩
  have hrequests : ∀ r ∈ [listing, sending, missing], r.Encodable := by
    simp only [List.forall_mem_cons]
    refine ⟨?_, ?_, ?_, List.forall_mem_nil _⟩ <;>
      exact ⟨by decide, by decide, by decide, by decide, nofun⟩
  let listed := (a.respond listing).2
  let last := (listed.respond sending).2
  have hexchanges : (a.serve [.requested listing, .requested sending, .requested missing]).1 =
      [⟨a, listing⟩, ⟨listed, sending⟩, ⟨last, missing⟩] := by
    simp only [serve, react, List.cons_append, List.nil_append, listed, last]
  obtain ⟨hfine, hfailed, -⟩ := reading_logs_failures_only a
    [.requested listing, .requested sending, .requested missing]
  replace hfailed := hfailed ha fun r hr =>
    hrequests r (by simpa only [List.mem_cons, Event.requested.injEq, List.not_mem_nil] using hr)
  rw [hexchanges] at hfine hfailed
  obtain ⟨hlisting, hsending, hmissing, hstatus⟩ :
      (isUnlogged listing = true ∧ (Exchange.mk a listing).isFailure = false) ∧
      (isUnlogged sending = true ∧ (Exchange.mk listed sending).isFailure = false) ∧
      (isUnlogged missing = true ∧ (Exchange.mk last missing).isFailure = true ∧
        (Exchange.mk last missing).isRaisedTwice = false) ∧
      (Exchange.mk last missing).response.status = 404 := by decide +kernel
  have hlisted := Exchange.rows_unchanged (hfine ⟨a, listing⟩ (.head _) hlisting.1 hlisting.2)
  have hsent := Exchange.rows_unchanged
    (hfine ⟨listed, sending⟩ (.tail _ (.head _)) hsending.1 hsending.2)
  obtain ⟨honce, -⟩ :=
    hfailed ⟨last, missing⟩ (.tail _ (.tail _ (.head _))) hmissing.1 hmissing.2.1
  obtain ⟨row, hrow, htells⟩ := honce hmissing.2.2
  rw [hstatus] at htells
  refine ⟨row, ?_, htells⟩
  rw [serve_spec, hexchanges, List.flatMap_cons, List.flatMap_cons, List.flatMap_singleton,
    hlisted, hsent, hrow]
  rfl

/-- An entry that is not there is asked for in vain, and that is logged. -/
theorem failed_reading_logged :
    let a := started Store.empty fun _ => .error .noSeparator
    let missing : Request := ⟨"GET", "/api/logs/7", "", [], "", none, "localhost", 1.0⟩
    isUnlogged missing = true ∧ (a.respond missing).1.status = 404 ∧ a.log.entries.length = 0 ∧
      (a.respond missing).2.log.entries.map (fun e => (e.method, e.path, e.status, e.errorType)) =
        [("GET", "/api/logs/7", 404, some "HTTPException")] := by
  decide +kernel

end Api

end AuditReport.Http
