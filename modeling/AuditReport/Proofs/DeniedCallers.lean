import AuditReport.Proofs.FailureCauses
import AuditReport.Proofs.ServiceHistories

/-! Callers who are turned away. Every operation decides first whether its caller may perform it, so
that those who may not learn nothing but this, and leave no trace. Nobody else is turned away. -/

namespace AuditReport

namespace Service

open Fallible
open Backend (Action)

variable {T : Type} {s : Service} {u : User} {operation : Operation}

/-! ## One operation -/

/-- Nothing behind the decision is begun. -/
theorem authorize_denied {α : Type} (h : s.authorizer u = false) (work : PUnit → Action T α)
    (b : Backend T) :
    (s.authorize u operation >>= work).run.run b = (.error (.denied operation.action), b) := by
  have hdenied : ensureAuthorized s.authorizer u operation.action =
      .error (.denied operation.action) := by
    simp [ensureAuthorized, h]
  rw [run_bind, authorize, run_ofExcept, hdenied]

theorem authorize_allowed {α : Type} (h : s.authorizer u = true) (work : PUnit → Action T α)
    (b : Backend T) : (s.authorize u operation >>= work).run.run b = (work ⟨⟩).run.run b := by
  have hallowed : ensureAuthorized s.authorizer u operation.action = .ok () := by
    simp [ensureAuthorized, h]
  rw [run_bind, authorize, run_ofExcept, hallowed]

theorem map_denied {α : Type} {x : Action T α} {b : Backend T} (answer : α → Answer)
    (h : x.run.run b = (.error (.denied operation.action), b)) :
    (answer <$> x).run.run b = (.error (.denied operation.action), b) := by
  rw [run_map, h]
  rfl

theorem authorize_undenied (h : s.authorizer u = true) :
    FailsOnly Failure.Undenied (s.authorize u operation : Action T Unit) := by
  refine failsOnly_ofExcept fun e he => ?_
  simp [ensureAuthorized, h] at he

theorem undenied_of_validate (q : ReportQuery) (e : Failure) (h : s.validate q = .error e) :
    e.Undenied :=
  undenied_of_mapError h undenied_ofRejection

theorem undenied_of_checkProvider (provider : String) (e : Failure)
    (h : checkProvider provider = .error e) : e.Undenied := by
  unfold checkProvider at h
  split at h
  · cases h
  · cases h
    rfl

theorem undenied_of_named (collection : String) :
    FailsOnly Failure.Undenied (named collection : Action T (List Lists.NamedItem)) :=
  (Backend.undenied_of_findNamed _).bind fun _ => failsOnly_ofExcept Lists.undenied_of_namedItems

variable [LE T] [DecidableLE T] [Timeline T]

/-- A denied operation says so and leaves the store, the record of calls and the resolver alone. -/
theorem perform_denied (h : s.authorizer u = false) (operation : Operation) (b : Backend T) :
    (s.perform u operation).run.run b = (.error (.denied operation.action), b) := by
  cases operation with
  | page q => exact map_denied _ (authorize_denied h _ b)
  | table r => exact map_denied _ (authorize_denied h _ b)
  | columns => exact map_denied _ (authorize_denied h _ b)
  | pairs part => exact map_denied _ (authorize_denied h _ b)
  | passwords => exact map_denied _ (authorize_denied h _ b)
  | providerValues provider part => exact map_denied _ (authorize_denied h _ b)
  | providerPasswords provider => exact map_denied _ (authorize_denied h _ b)
  | contactEmails => exact map_denied _ (authorize_denied h _ b)
  | portfolios => exact map_denied _ (authorize_denied h _ b)
  | properties => exact map_denied _ (authorize_denied h _ b)
  | clearCache =>
    have hclear : (s.clearCache u).run.run b = (.error (.denied Operation.clearCache.action), b) :=
      authorize_denied h _ b
    show (s.clearCache u >>= _).run.run b = _
    rw [run_bind_error (congrArg Prod.fst hclear), hclear]

theorem undenied_of_page (h : s.authorizer u = true) (q : ReportQuery) :
    FailsOnly Failure.Undenied (s.page u q : Action T ReportPage) := by
  refine (authorize_undenied h).bind fun _ => ?_
  refine (failsOnly_ofExcept (undenied_of_validate q)).bind fun _ => ?_
  refine FailsOnly.bind (failsOnly_ofExcept fun _ h => ?_) fun pipeline => ?_
  · exact undenied_of_mapError h undenied_ofBuild
  refine (Backend.undenied_of_runPage _ _ pipeline).bind fun found => ?_
  refine FailsOnly.bind (Backend.undenied_of_resolve fun now => ?_) fun rows => ?_
  · exact Resolver.undenied_of_resolveRows now found.documents
  exact (failsOnly_ofExcept PageInfo.undenied_of_of).bind fun _ => failsOnly_pure _

theorem undenied_of_table (h : s.authorizer u = true) (r : ExportRequest) :
    FailsOnly Failure.Undenied (s.table u r : Action T Table) := by
  refine (authorize_undenied h).bind fun _ => ?_
  refine (failsOnly_ofExcept (undenied_of_validate r.query)).bind fun _ => ?_
  refine FailsOnly.bind (failsOnly_ofExcept fun _ h => ?_) fun _ => ?_
  · exact undenied_of_mapError h undenied_ofRejection
  refine FailsOnly.bind (failsOnly_ofExcept fun _ h => ?_) fun pipeline => ?_
  · exact undenied_of_mapError h undenied_ofBuild
  refine (Backend.undenied_of_runExport _ _ pipeline).bind fun docs => ?_
  refine FailsOnly.bind (Backend.undenied_of_resolve fun now => ?_) fun _ => ?_
  · exact Resolver.undenied_of_resolveRows now docs
  exact Backend.undenied_of_crash

/-- Whatever an allowed operation fails of, it does not say that it is denied. -/
theorem perform_undenied (h : s.authorizer u = true) (operation : Operation) :
    FailsOnly Failure.Undenied (s.perform u operation : Action T Answer) := by
  have allowed {α : Type} {operation : Operation} {work : PUnit → Action T α}
      (hwork : ∀ a, FailsOnly Failure.Undenied (work a)) :
      FailsOnly Failure.Undenied (s.authorize u operation >>= work) :=
    (authorize_undenied h).bind hwork
  cases operation with
  | page q => exact (undenied_of_page h q).map _
  | table r => exact (undenied_of_table h r).map _
  | columns => exact (allowed fun _ => failsOnly_pure _).map _
  | pairs part =>
    exact (allowed fun _ => (Backend.undenied_of_credentials _).bind fun _ =>
      Backend.undenied_of_crash).map _
  | passwords =>
    exact (allowed fun _ =>
      Backend.undenied_of_passwordList _ Backend.undenied_of_storedPasswords).map _
  | providerValues provider part =>
    exact (allowed fun _ => (failsOnly_ofExcept (undenied_of_checkProvider provider)).bind fun _ =>
      (Backend.undenied_of_credentials _).bind fun _ => Backend.undenied_of_crash.bind fun _ =>
        failsOnly_ofExcept Lists.undenied_of_texts).map _
  | providerPasswords provider =>
    exact (allowed fun _ => (failsOnly_ofExcept (undenied_of_checkProvider provider)).bind fun _ =>
      (Backend.undenied_of_passwordList _
        (Backend.undenied_of_storedPasswords.bind fun _ => failsOnly_pure _)).bind fun _ =>
          failsOnly_pure _).map _
  | contactEmails =>
    exact (allowed fun _ => (Backend.undenied_of_distinct _ _ _).bind fun _ =>
      Backend.undenied_of_crash.bind fun _ => failsOnly_ofExcept Lists.undenied_of_texts).map _
  | portfolios => exact (allowed fun _ => undenied_of_named _).map _
  | properties => exact (allowed fun _ => undenied_of_named _).map _
  | clearCache =>
    exact (allowed fun _ => failsOnly_modify _).bind fun _ => failsOnly_pure _

/-- Just those whom the authorizer rejects are denied what they ask for. -/
theorem perform_denied_iff (s : Service) (u : User) (operation : Operation) (b : Backend T) :
    (∃ action, ((s.perform u operation).run.run b).1 = .error (.denied action)) ↔
      s.authorizer u = false := by
  cases h : s.authorizer u with
  | false =>
    rw [perform_denied h]
    exact ⟨fun _ => rfl, fun _ => ⟨operation.action, rfl⟩⟩
  | true =>
    refine ⟨fun ⟨action, he⟩ => ?_, nofun⟩
    have hundenied : (Failure.denied action).isDenied = false := perform_undenied h operation b _ he
    simp [Failure.isDenied] at hundenied

/-! ## Histories -/

/-- The request of an event, if its caller is turned away. -/
def deniedRequest? (s : Service) : Event T → Option (User × Operation)
  | .asked caller operation => if s.authorizer caller then none else some (caller, operation)
  | _ => none

/-- An event either is the request of someone who is turned away and does nothing but say so, or
tells nothing to anyone who is. -/
theorem react_cases (s : Service) (b : Backend T) (e : Event T) :
    (∃ caller operation, s.deniedRequest? e = some (caller, operation) ∧
      s.authorizer caller = false ∧
      s.react b e = ([(caller, .error (.denied operation.action))], b)) ∨
    (s.deniedRequest? e = none ∧ ∀ told ∈ (s.react b e).1, s.authorizer told.1 = true) := by
  cases e with
  | asked caller operation =>
    cases ha : s.authorizer caller with
    | false =>
      refine .inl ⟨caller, operation, by simp [deniedRequest?, ha], ha, ?_⟩
      simp only [react, perform_denied ha]
    | true => exact .inr ⟨by simp [deniedRequest?, ha], by simp [react, ha]⟩
  | stored store => exact .inr ⟨rfl, List.forall_mem_nil _⟩
  | timed now => exact .inr ⟨rfl, List.forall_mem_nil _⟩

/-- What those who are turned away are told depends on what they ask for alone. -/
theorem told_denied (s : Service) (b : Backend T) (history : List (Event T)) :
    (s.serve b history).1.filter (!s.authorizer ·.1) =
      (history.filterMap s.deniedRequest?).map fun (caller, operation) =>
        (caller, .error (.denied operation.action)) := by
  induction history generalizing b with
  | nil => rfl
  | cons e rest ih =>
    rw [serve, List.filter_append, ih]
    rcases s.react_cases b e with ⟨caller, operation, he, ha, hr⟩ | ⟨he, hothers⟩
    · rw [List.filterMap_cons_some he, hr]
      simp [ha]
    · rw [List.filterMap_cons_none he, List.filter_eq_nil_iff.mpr, List.nil_append]
      exact fun told htold => by simp [hothers told htold]

/-- The others are told, and the backend is left, as if nobody had been turned away. -/
theorem serve_filter (s : Service) (b : Backend T) (history : List (Event T)) :
    s.serve b (history.filter fun e => (s.deniedRequest? e).isNone) =
      ((s.serve b history).1.filter (s.authorizer ·.1), (s.serve b history).2) := by
  induction history generalizing b with
  | nil => rfl
  | cons e rest ih =>
    rcases s.react_cases b e with ⟨caller, operation, he, ha, hr⟩ | ⟨he, hothers⟩
    · rw [List.filter_cons_of_neg (by simp [he]), ih, serve, hr]
      simp [ha]
    · rw [List.filter_cons_of_pos (by simp [he]), serve, serve, ih]
      simp only [List.filter_append, List.filter_eq_self.mpr hothers]

/-- **Callers who are turned away learn nothing and leave no trace.** Whatever they ask for, be it
with filters, columns or a provider that there are not, the answer is that it is denied, nothing is
asked of the store or of the resolver, and both stay as they are; so the answer is the same over any
two stores and caches. Nobody else is told that anything is denied. In a history, what those who are
turned away are told depends on their own requests alone, and all others are told, and the store and
the caches are left, as if they had not asked. -/
theorem denied_callers_learn_nothing (s : Service) :
    (∀ u, s.authorizer u = false → ∀ operation,
      (∀ b : Backend T,
        (s.perform u operation).run.run b = (.error (.denied operation.action), b)) ∧
      (Failure.denied operation.action).name = "ReportAuthorizationError" ∧
      ∀ b c : Backend T,
        ((s.perform u operation).run.run b).1 = ((s.perform u operation).run.run c).1) ∧
    (∀ (u : User) (operation : Operation) (b : Backend T),
      (∃ action, ((s.perform u operation).run.run b).1 = .error (.denied action)) ↔
        s.authorizer u = false) ∧
    (∀ (b c : Backend T) (history other : List (Event T)),
      history.filterMap s.deniedRequest? = other.filterMap s.deniedRequest? →
      (s.serve b history).1.filter (!s.authorizer ·.1) =
        (s.serve c other).1.filter (!s.authorizer ·.1)) ∧
    ∀ (b : Backend T) (history : List (Event T)),
      s.serve b (history.filter fun e => (s.deniedRequest? e).isNone) =
        ((s.serve b history).1.filter (s.authorizer ·.1), (s.serve b history).2) := by
  refine ⟨fun u hu operation => ⟨perform_denied hu operation, rfl, fun b c => ?_⟩,
    s.perform_denied_iff, fun b c history other h => ?_, s.serve_filter⟩
  · rw [perform_denied hu, perform_denied hu]
  · rw [told_denied, told_denied, h]

/-- A viewer asks for the passwords of a provider that there is not, and then for the cache to be
dropped, be a password cached or not. -/
theorem denied_callers_learn_nothing_viewer :
    let s : Service := ⟨Audit.blueprint, superAdminsOnly, 30000⟩
    let viewer : User := ⟨some "u-1", some "super_viewer"⟩
    let empty : Backend Int :=
      ⟨Store.empty, [], Resolver.fresh (fun _ => .error .noSeparator) ⟨2, none⟩ 300 300, 7⟩
    let cached : Backend Int :=
      { empty with
        resolver := { empty.resolver with values := ⟨300, [⟨"c", some "secret", 300⟩]⟩ } }
    let history : List (Event Int) :=
      [.asked viewer (.providerPasswords "nobody"), .asked viewer .clearCache]
    s.authorizer viewer = false ∧
      (s.perform viewer (.providerPasswords "nobody")).run.run cached =
        (.error (.denied "access nobody passwords"), cached) ∧
      (s.serve cached history).1.filter (!s.authorizer ·.1) =
        (s.serve empty (.timed 9 :: history)).1.filter (!s.authorizer ·.1) := by
  intro s viewer empty cached history
  have hviewer : s.authorizer viewer = false := by decide
  have haction : (Operation.providerPasswords "nobody").action = "access nobody passwords" := by
    decide
  obtain ⟨halone, -, htold, -⟩ := denied_callers_learn_nothing (T := Int) s
  have hsame : history.filterMap s.deniedRequest? =
      (.timed 9 :: history : List (Event Int)).filterMap s.deniedRequest? :=
    (List.filterMap_cons_none rfl).symm
  have hdenied := (halone viewer hviewer (.providerPasswords "nobody")).1 cached
  rw [haction] at hdenied
  exact ⟨hviewer, hdenied, htold cached empty history (.timed 9 :: history) hsame⟩

end Service

end AuditReport
