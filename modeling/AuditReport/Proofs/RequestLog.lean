import AuditReport.Catalog.Audit
import AuditReport.Proofs.AnswerStatuses
import AuditReport.Proofs.ApiHistories
import AuditReport.Proofs.AsciiText
import AuditReport.Proofs.LogGrowth

/-! What requests leave in the log. Every request under a path that is logged makes one entry, which
tells of the answer and, if an exception ended the work on the request, of that. Only an exception
that cannot be told to the caller is logged besides the failure to tell it. -/

namespace AuditReport.Http

open Text.Surrogate (isPaired)

/-! ## Texts -/

theorem paired_some {s : String} (h : isPaired s = true) : ∀ t ∈ some s, isPaired t = true :=
  fun _ ht => Option.some.inj ht ▸ h

/-- All that a request says can be encoded. -/
structure Request.Encodable (r : Request) : Prop where
  method : isPaired r.method = true
  path : isPaired r.path = true
  headers : ∀ h ∈ r.headers, isPaired h.2 = true
  body : isPaired r.body.text = true
  client : ∀ s ∈ r.client, isPaired s = true

/-- All that the application says of itself can be encoded. -/
structure Api.Encodable {T : Type} (a : Api T) : Prop where
  applicationId : isPaired a.applicationId = true
  hostname : isPaired a.hostname = true

namespace Request.Encodable

variable {r : Request}

theorem header (h : r.Encodable) (name : String) : ∀ s ∈ r.header? name, isPaired s = true := by
  intro s hs
  obtain ⟨before, after, hheaders, -⟩ := List.lookup_eq_some_iff.mp hs
  exact h.headers (name, s) (hheaders ▸ List.mem_append_right _ List.mem_cons_self)

theorem shownPath (h : r.Encodable) : isPaired r.shownPath = true := by
  have hpath := List.all_eq_true.mp h.path
  refine List.all_eq_true.mpr fun c hc => ?_
  rw [Request.shownPath, String.toList_ofList, locationPath, String.toList_ofList] at hc
  obtain ⟨d, hd, hc⟩ := List.mem_flatMap.mp (List.mem_filter.mp hc).1
  have hescape (s : String) (hs : isPaired s = true) (hc : c ∈ s.toList) :
      (Text.Surrogate.unit? c).isNone = true := List.all_eq_true.mp hs c hc
  split at hc
  · exact hescape _ (by decide) hc
  split at hc
  · exact hescape _ (by decide) hc
  split at hc
  · exact hescape _ (by decide) hc
  · exact List.mem_singleton.mp hc ▸ hpath d hd

end Request.Encodable

/-- The path is logged as it is, unless something in it would end it in a location. -/
theorem Request.shownPath_eq {r : Request}
    (h : ∀ c ∈ r.path.toList, c ∉ ['?', '#', '\\', '\t', '\r', '\n']) : r.shownPath = r.path := by
  have hlocation : (locationPath r.path).toList = r.path.toList := by
    rw [locationPath, String.toList_ofList]
    refine Eq.trans ?_ (List.flatMap_singleton' r.path.toList)
    refine List.flatMap_congr fun c hc => ?_
    have hplain := h c hc
    simp only [List.mem_cons, not_or] at hplain
    rw [if_neg hplain.1, if_neg hplain.2.1, if_neg hplain.2.2.1]
  have hkept : r.path.toList.filter (fun c => c != '\t' && c != '\r' && c != '\n') =
      r.path.toList := by
    refine List.filter_eq_self.mpr fun c hc => ?_
    have hplain := h c hc
    simp only [List.mem_cons, not_or] at hplain
    simp [hplain.2.2.2.1, hplain.2.2.2.2.1, hplain.2.2.2.2.2.1]
  rw [shownPath, hlocation, hkept, String.ofList_toList]

/-! ## One entry -/

/-- An entry of the log tells of a request and its answer: of the request by method and path, of
the answer by its status, and whether an exception led to it. -/
structure Tells (row : LogEntry) (r : Request) (status : Nat) (raised : Bool) : Prop where
  method : row.method = r.method
  path : row.path = r.shownPath
  status : row.status = status
  errorType : row.errorType.isSome = raised

namespace Outcome

/-- An exception ended the work on the request. -/
def isRaised : Outcome → Bool
  | answered _ => false
  | invalid _ | refused .. | failed _ => true

theorem fault?_isSome (o : Outcome) : o.fault?.isSome = o.isRaised := by cases o <;> rfl

theorem fault?_eq_none {o : Outcome} (h : o.isRaised = false) : o.fault? = none := by
  cases o with
  | answered => rfl
  | _ => cases h

theorem fault?_name_paired {o : Outcome} {name : String} {known : Value}
    (h : o.fault? = some (name, known)) : isPaired name = true := by
  have hcrash (c : Crash) : isPaired c.name = true := by
    cases c <;> simp only [Crash.name] <;> decide
  have hfailure (f : Failure) : isPaired f.name = true := by
    cases f with
    | crashed c => exact hcrash c
    | _ => simp only [Failure.name]; decide
  cases o with
  | answered => cases h
  | invalid | refused => cases h; decide
  | failed f => cases h; exact hfailure f

end Outcome

namespace Api

variable {T : Type} {a : Api T} {r : Request} {o : Outcome}

theorem logged_frame (a : Api T) (r : Request) (o : Outcome) :
    a.logged r o = { a with log := (a.logged r o).log } := by
  unfold logged
  split <;> rfl

/-- A draft of a request that can be encoded makes an entry, if what it says beyond the request can
be encoded too. -/
theorem persist_draft (ha : a.Encodable) (hr : r.Encodable) {status : Nat}
    (hstatus : status ∈ statuses) {d : LogDraft} (hd : d = { a.draft r status with
      requestBody := d.requestBody, responseBody := d.responseBody
      processingTime := d.processingTime, errorType := d.errorType })
    (hown : ∀ s ∈ [d.requestBody, d.responseBody, d.errorType], ∀ t ∈ s, isPaired t = true)
    (t : LogTable) :
    ∃ row, (t.persist d a.now).2.entries = t.entries ++ [row] ∧
      Tells row r status d.errorType.isSome := by
  obtain ⟨hrequest, hresponse, herror, -⟩ := by simpa only [List.forall_mem_cons] using hown
  have hnumbers : ∀ n ∈ d.numbers, ∀ k ∈ n, Number.isWord k = true := by
    rw [hd]
    simp only [LogDraft.numbers, List.forall_mem_cons, draft, LogDraft.blank]
    refine ⟨fun k hk => absurd hk (Option.not_mem_none k), fun k hk => ?_, List.forall_mem_nil _⟩
    have hall : ∀ n ∈ statuses, Number.isWord n = true := by decide
    exact Option.some.inj hk ▸ hall status hstatus
  have htexts : ∀ s ∈ d.texts, ∀ t ∈ s, isPaired t = true := by
    rw [hd]
    simp only [LogDraft.texts, List.forall_mem_cons, draft]
    exact ⟨paired_some hr.method, paired_some hr.shownPath, hr.client, hrequest, hresponse,
      hr.header _, hr.header _, hr.header _, herror, paired_some ha.hostname,
      paired_some ha.applicationId, List.forall_mem_nil _⟩
  have hfault := LogDraft.fault?_eq_none_iff.mpr ⟨hnumbers, htexts⟩
  rw [hd] at hfault ⊢
  rw [LogTable.persist_written rfl, LogDraft.written, hfault]
  exact ⟨_, rfl, rfl, rfl, rfl, rfl⟩

/-- What came of a request makes one entry, if it was an exception or the path is logged. -/
theorem logged_row (ha : a.Encodable) (hr : r.Encodable) (hstatus : o.response.status ∈ statuses)
    (hlogged : o.isRaised = true ∨ isUnlogged r = false ∧ o.isSendable = true) :
    ∃ row, (a.logged r o).log.entries = a.log.entries ++ [row] ∧
      Tells row r o.response.status o.isRaised := by
  rw [← o.fault?_isSome] at hlogged ⊢
  unfold logged entry?
  cases hfault : o.fault? with
  | some fault =>
    obtain ⟨name, known⟩ := fault
    have hcaptured : isPaired (capturedBody r) = true := by
      unfold capturedBody
      split
      · decide
      · exact hr.body
    have htold : isPaired (Json.write Json.indented known) = true := Json.isPaired_write rfl known
    refine persist_draft ha hr hstatus rfl ?_ a.log
    simp only [List.forall_mem_cons]
    exact ⟨paired_some hcaptured, paired_some htold,
      paired_some (Outcome.fault?_name_paired hfault), List.forall_mem_nil _⟩
  | none =>
    obtain ⟨hpath, hsendable⟩ := hlogged.resolve_left (by simp [hfault])
    have hbody :
        isPaired (if r.isUnder reportPath then redacted else o.response.bodyText) = true := by
      split
      · decide
      · exact hsendable
    simp only [hpath, Bool.false_eq_true, if_false]
    refine persist_draft ha hr hstatus rfl ?_ a.log
    simp only [List.forall_mem_cons]
    exact ⟨paired_some hr.body, paired_some hbody, nofun, List.forall_mem_nil _⟩

theorem Encodable.logged (ha : a.Encodable) (r : Request) (o : Outcome) :
    (a.logged r o).Encodable := by
  rw [logged_frame]
  exact ⟨ha.applicationId, ha.hostname⟩

/-! ## One request -/

theorem logged_grows (a : Api T) (r : Request) (o : Outcome) :
    a.log.entries <+: (a.logged r o).log.entries := by
  unfold logged
  split
  · exact LogTable.persist_grows ..
  · exact List.prefix_refl _

variable [LE T] [DecidableLE T] [Timeline T]

theorem outcome_log (a : Api T) (r : Request) : (a.outcome r).2.log = a.log := by
  rw [outcome_frame]

theorem respond_grows (a : Api T) (r : Request) :
    a.log.entries <+: (a.respond r).2.log.entries := by
  have hlogged (o : Outcome) : a.log.entries <+: ((a.outcome r).2.logged r o).log.entries :=
    outcome_log a r ▸ logged_grows _ r o
  unfold respond
  split
  · exact List.prefix_refl _
  dsimp only
  split
  · exact hlogged _
  split
  · exact (hlogged _).trans (logged_grows ..)
  · exact hlogged _

/-- What comes of an answer that cannot be sent. -/
def untold : Outcome := .failed (.crashed .unencodable)

section

variable (hasked : CrossOrigin.asked? r = none)
include hasked

theorem respond_sendable (hsendable : (a.outcome r).1.isSendable = true) :
    a.respond r = (sent r (a.outcome r).1, (a.outcome r).2.logged r (a.outcome r).1) := by
  simp only [respond, hasked, hsendable, if_true]

variable (hsendable : (a.outcome r).1.isSendable = false)
include hsendable

theorem respond_answer_unsendable (hraised : (a.outcome r).1.isRaised = false) :
    a.respond r = (sent r untold, (a.outcome r).2.logged r untold) := by
  simp only [respond, hasked, hsendable, hraised, Bool.false_eq_true, if_false,
    Outcome.fault?_isSome]
  rfl

theorem respond_raised_unsendable (hraised : (a.outcome r).1.isRaised = true) :
    a.respond r =
      (sent r untold, ((a.outcome r).2.logged r (a.outcome r).1).logged r untold) := by
  simp only [respond, hasked, hsendable, hraised, Bool.false_eq_true, if_false, if_true,
    Outcome.fault?_isSome]
  rfl

end

theorem Encodable.outcome (ha : a.Encodable) (r : Request) : (a.outcome r).2.Encodable := by
  rw [outcome_frame]
  exact ⟨ha.applicationId, ha.hostname⟩

theorem respond_names (a : Api T) (r : Request) :
    (a.respond r).2.applicationId = a.applicationId ∧ (a.respond r).2.hostname = a.hostname := by
  have hlogged (b : Api T) (o : Outcome) (h : b.applicationId = a.applicationId ∧
      b.hostname = a.hostname) : (b.logged r o).applicationId = a.applicationId ∧
      (b.logged r o).hostname = a.hostname := by
    rw [logged_frame]
    exact h
  have houtcome : (a.outcome r).2.applicationId = a.applicationId ∧
      (a.outcome r).2.hostname = a.hostname := by
    rw [outcome_frame]
    exact ⟨rfl, rfl⟩
  unfold respond
  split
  · exact ⟨rfl, rfl⟩
  dsimp only
  split
  · exact hlogged _ _ houtcome
  split
  · exact hlogged _ _ (hlogged _ _ houtcome)
  · exact hlogged _ _ houtcome

theorem Encodable.respond (ha : a.Encodable) (r : Request) : (a.respond r).2.Encodable :=
  have ⟨happlication, hhost⟩ := respond_names a r
  ⟨happlication ▸ ha.applicationId, hhost ▸ ha.hostname⟩

end Api

namespace Exchange

variable {T : Type} {x : Exchange T}

/-- The request only asks for leave to send another. -/
def isPreflight (x : Exchange T) : Bool := (CrossOrigin.asked? x.request).isSome

variable [LE T] [DecidableLE T] [Timeline T]

/-- An exception led to the answer, be it only that there was no way to send another. -/
def isRaised (x : Exchange T) : Bool := x.outcome.isRaised || !x.outcome.isSendable

/-- An exception led to an answer, and a second one to another as there was no way to send it. -/
def isRaisedTwice (x : Exchange T) : Bool := x.outcome.isRaised && !x.outcome.isSendable

theorem rows_spec (x : Exchange T) : x.after.log.entries = x.before.log.entries ++ x.rows :=
  List.prefix_iff_eq_append.mp (Api.respond_grows x.before x.request) |>.symm

theorem rows_eq {rows : List LogEntry}
    (h : x.after.log.entries = x.before.log.entries ++ rows) : x.rows = rows :=
  List.append_cancel_left ((rows_spec x).symm.trans h)

theorem rows_preflight (h : x.isPreflight = true) : x.rows = [] := by
  obtain ⟨asked, hasked⟩ := Option.isSome_iff_exists.mp h
  refine rows_eq ?_
  rw [List.append_nil, after, Api.respond, hasked]

section

variable (hx : x.before.Encodable) (hr : x.request.Encodable)
include hx hr

/-- A request makes one entry if its path is logged, or an exception led to its answer. -/
theorem row_written (hasked : CrossOrigin.asked? x.request = none)
    (hrow : x.isRaised = true ∨ Api.isUnlogged x.request = false)
    (honce : x.isRaisedTwice = false) :
    ∃ row, x.rows = [row] ∧ Tells row x.request x.response.status x.isRaised := by
  have hafter := hx.outcome x.request
  have hkept := Api.outcome_log x.before x.request
  unfold isRaised at hrow ⊢
  cases hsendable : x.outcome.isSendable with
  | true =>
    have hrespond := Api.respond_sendable hasked hsendable
    rw [hsendable, Bool.not_true, Bool.or_false] at hrow
    obtain ⟨row, hrows, htells⟩ := Api.logged_row hafter hr Api.outcome_status
      (hrow.imp_right fun hpath => ⟨hpath, hsendable⟩)
    refine ⟨row, rows_eq ?_, ?_⟩
    · rw [after, hrespond, hrows, hkept]
    · rw [response, hrespond, Api.sent_status, Bool.not_true, Bool.or_false]
      exact htells
  | false =>
    have hraised : x.outcome.isRaised = false := by simpa [isRaisedTwice, hsendable] using honce
    have hrespond := Api.respond_answer_unsendable hasked hsendable hraised
    obtain ⟨row, hrows, htells⟩ :=
      Api.logged_row hafter hr (o := Api.untold) (by decide) (.inl rfl)
    refine ⟨row, rows_eq ?_, ?_⟩
    · rw [after, hrespond, hrows, hkept]
    · rw [response, hrespond, Api.sent_status, Bool.not_false, Bool.or_true]
      exact htells

/-- An exception that cannot be told makes two entries, whatever the path. -/
theorem rows_written_twice (hasked : CrossOrigin.asked? x.request = none)
    (htwice : x.isRaisedTwice = true) :
    x.response.status = 500 ∧ ∃ first second, x.rows = [first, second] ∧
      Tells first x.request x.outcome.response.status true ∧
      Tells second x.request 500 true := by
  have hafter := hx.outcome x.request
  have hkept := Api.outcome_log x.before x.request
  obtain ⟨hraised, hsendable⟩ : x.outcome.isRaised = true ∧ x.outcome.isSendable = false := by
    simpa [isRaisedTwice] using htwice
  have hrespond := Api.respond_raised_unsendable hasked hsendable hraised
  obtain ⟨first, hfirst, hfirstTells⟩ :=
    Api.logged_row hafter hr Api.outcome_status (.inl hraised)
  obtain ⟨second, hsecond, hsecondTells⟩ :=
    Api.logged_row (hafter.logged x.request _) hr (o := Api.untold) (by decide) (.inl rfl)
  refine ⟨?_, first, second, rows_eq ?_, ?_, hsecondTells⟩
  · rw [response, hrespond, Api.sent_status]
    rfl
  · rw [after, hrespond, hsecond, hfirst, hkept, List.append_assoc]
    rfl
  · exact hraised ▸ hfirstTells

end

end Exchange

/-! ## All requests -/

namespace Api

variable {T : Type} [LE T] [DecidableLE T] [Timeline T]

theorem react_spec (a : Api T) (e : Event T) :
    (a.react e).2.log.entries = a.log.entries ++ (a.react e).1.flatMap Exchange.rows := by
  cases e with
  | requested r => exact (Exchange.rows_spec ⟨a, r⟩).trans (by rw [react, List.flatMap_singleton])
  | stored | timed => exact (List.append_nil _).symm

theorem serve_spec (a : Api T) (es : List (Event T)) :
    (a.serve es).2.log.entries = a.log.entries ++ (a.serve es).1.flatMap Exchange.rows := by
  induction es generalizing a with
  | nil => exact (List.append_nil _).symm
  | cons e rest ih =>
    rw [serve, ih, react_spec, List.flatMap_append, List.append_assoc]

theorem Encodable.react {a : Api T} (ha : a.Encodable) (e : Event T) : (a.react e).2.Encodable := by
  cases e with
  | requested r => exact ha.respond r
  | stored | timed => exact ⟨ha.applicationId, ha.hostname⟩

theorem serve_encodable {a : Api T} (ha : a.Encodable) {es : List (Event T)}
    (hes : ∀ r, .requested r ∈ es → r.Encodable) :
    ∀ x ∈ (a.serve es).1, x.before.Encodable ∧ x.request.Encodable := by
  induction es generalizing a with
  | nil => exact List.forall_mem_nil _
  | cons e rest ih =>
    refine List.forall_mem_append.mpr ⟨?_, ih (ha.react e) fun r hr =>
      hes r (List.mem_cons_of_mem _ hr)⟩
    cases e with
    | requested r => exact List.forall_mem_singleton.mpr ⟨ha, hes r List.mem_cons_self⟩
    | stored | timed => exact List.forall_mem_nil _

end Api

end AuditReport.Http
