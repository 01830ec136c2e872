import AuditReport.Http.Api
import AuditReport.Proofs.Fallible

/-! How requests to endpoints can end, and the statuses that answers can have. -/

namespace AuditReport.Http

/-- The ways in which a request that reaches an endpoint can end. -/
inductive Outcome.AtEndpoint : Outcome → Prop where
  | answered {response : Response} (h : response.status ∈ [200, 204]) :
    AtEndpoint (answered response)
  | invalid (issues : List Schema.Issue) : AtEndpoint (invalid issues)
  | refused {status : Nat} (h : status ∈ [400, 404, 500]) (detail : String) :
    AtEndpoint (refused status detail)
  | failed (f : Failure) : AtEndpoint (failed f)

namespace Api

variable {T : Type} {a : Api T} {r : Request}

theorem sent_status (r : Request) (o : Outcome) : (sent r o).status = o.response.status := by
  have hexposed : (CrossOrigin.expose r o.response).status = o.response.status := by
    unfold CrossOrigin.expose
    split <;> rfl
  unfold sent
  dsimp only
  split <;> split <;> first | rfl | exact hexposed

/-! ## Endpoints -/

theorem ofInputFault_ends (f : InputFault) : (Outcome.ofInputFault f).AtEndpoint := by
  cases f with
  | invalid issues =>
    unfold Outcome.ofInputFault
    dsimp only
    split
    · exact .failed _
    · exact .invalid issues
  | unreadableBody => exact .refused (by decide) _

theorem ofLogFault_ends (f : LogTable.Fault) : (ofLogFault f).AtEndpoint := by
  cases f with
  | unfit f => cases f <;> exact .failed _
  | overlongPattern => exact .refused (by decide) _

theorem plainAnswer_status {found : Answer} {response : Response}
    (h : plainAnswer found = .ok response) : response.status ∈ [200, 204] := by
  cases found with
  | done =>
    cases h
    exact List.mem_cons_of_mem _ List.mem_cons_self
  | _ =>
    cases h
    exact List.mem_cons_self

theorem fileAnswer_status {format : ExportFormat} {today : Calendar.Day} {found : Answer}
    {response : Response} (h : fileAnswer format today found = .ok response) :
    response.status ∈ [200, 204] := by
  unfold fileAnswer at h
  split at h
  · next t =>
    obtain ⟨content, -, rfl⟩ := Fallible.map_ok_iff.mp h
    exact List.mem_cons_self
  · exact plainAnswer_status h

theorem withInput_ends {α : Type} {input : Except InputFault α} {go : α → Outcome × Api T}
    (hgo : ∀ x, (go x).1.AtEndpoint) : (a.withInput input go).1.AtEndpoint := by
  unfold withInput
  split
  · exact ofInputFault_ends _
  · exact hgo _

theorem logPage_ends (q : Input.LogRequest) : (a.logPage q).AtEndpoint := by
  unfold logPage
  dsimp only
  split
  · exact .refused (by decide) _
  split
  · exact .answered List.mem_cons_self
  · exact ofLogFault_ends _
  · exact ofLogFault_ends _

theorem logEntry_ends (id : Int) : (a.logEntry id).AtEndpoint := by
  unfold logEntry
  split
  · exact ofLogFault_ends _
  · exact .refused (by decide) _
  · exact .answered List.mem_cons_self

variable [LE T] [DecidableLE T] [Timeline T]

theorem perform_ends {operation : Operation} {answer : Answer → Except Crash Response}
    (hanswer : ∀ found response, answer found = .ok response → response.status ∈ [200, 204]) :
    (a.perform r operation answer).1.AtEndpoint := by
  unfold perform
  rcases (a.service.perform (caller r) operation).run.run a.backend with ⟨f | found, backend⟩
  · exact .failed f
  · cases hfound : answer found with
    | error c =>
      simp only [hfound]
      exact .failed _
    | ok response =>
      simp only [hfound]
      exact .answered (hanswer found response hfound)

theorem reach_ends (e : Endpoint) : (a.reach r e).1.AtEndpoint := by
  cases e with
  | page => exact withInput_ends fun _ => perform_ends fun _ _ => plainAnswer_status
  | file => exact withInput_ends fun _ => perform_ends fun _ _ => fileAnswer_status
  | operation o => exact perform_ends fun _ _ => plainAnswer_status
  | ofProvider => exact withInput_ends fun _ => perform_ends fun _ _ => plainAnswer_status
  | logPage => exact withInput_ends logPage_ends
  | logEntry => exact withInput_ends logEntry_ends
  | documentation => exact .answered List.mem_cons_self

/-! ## Statuses -/

/-- The statuses of answers to requests that ask for more than leave to send another. -/
def statuses : List Nat := [200, 204, 307, 400, 403, 404, 405, 422, 500, 502]

theorem atEndpoint_status {o : Outcome} (h : o.AtEndpoint) : o.response.status ∈ statuses := by
  cases h with
  | @answered response h =>
    have hknown : ∀ n ∈ [200, 204], n ∈ statuses := by decide
    exact hknown response.status h
  | invalid issues =>
    show 422 ∈ statuses
    decide
  | @refused status h detail =>
    have hknown : ∀ n ∈ [400, 404, 500], n ∈ statuses := by decide
    exact hknown status h
  | failed f =>
    have hstatus : (Outcome.failed f).response.status = f.status?.getD 500 := by cases f <;> rfl
    rw [hstatus]
    cases f <;> simp [Failure.status?, statuses]

theorem outcome_status : (a.outcome r).1.response.status ∈ statuses := by
  unfold outcome
  split
  · exact atEndpoint_status (reach_ends _)
  · show 405 ∈ statuses
    decide
  · show 307 ∈ statuses
    decide
  · show 404 ∈ statuses
    decide

end Api

end AuditReport.Http
