import AuditReport.Proofs.DecryptionBatch
import AuditReport.Service

/-! What operations fail of. Nothing but the decision about the caller denies an operation: whatever
goes wrong behind it, in the request, the store or the resolver, is told as what it is. -/

namespace AuditReport

open Fallible

variable {ε α β : Type}

/-- The failure of a caller who is turned away. -/
def Failure.isDenied : Failure → Bool
  | denied _ => true
  | _ => false

/-- Any other failure. -/
def Failure.Undenied (e : Failure) : Prop := e.isDenied = false

theorem undenied_ofRejection (r : Rejection) : (Failure.ofRejection r).Undenied := by
  cases r <;> rfl

theorem undenied_ofBuild (e : BuildError) : (Failure.ofBuild e).Undenied := by
  cases e with
  | coercion e =>
    cases e with
    | rejected r => exact undenied_ofRejection r
    | outOfCalendar => rfl
  | misordered e => rfl

theorem undenied_of_mapError {x : Except ε α} {f : ε → Failure} {e : Failure}
    (h : x.mapError f = .error e) (hf : ∀ d, (f d).Undenied) : e.Undenied := by
  obtain ⟨d, -, rfl⟩ := mapError_error_iff.mp h
  exact hf d

theorem undenied_of_mapM {f : α → Except Failure β} {xs : List α}
    (hf : ∀ x e, f x = .error e → e.Undenied) (e : Failure) (h : xs.mapM f = .error e) :
    e.Undenied := by
  obtain ⟨_, x, _, -, -, hx⟩ := mapM_error_iff.mp h
  exact hf x e hx

/-! ## Data -/

theorem Lists.undenied_of_texts {vs : List Value} (e : Failure) (h : texts vs = .error e) :
    e.Undenied :=
  undenied_of_mapError h fun _ => rfl

theorem Lists.undenied_of_namedItems {docs : List Value} (e : Failure)
    (h : namedItems docs = .error e) : e.Undenied := by
  rcases bind_error_iff.mp h with h | ⟨found, -, h⟩
  · exact undenied_of_mapError h fun _ => rfl
  · refine undenied_of_mapM (fun item d hd => ?_) e h
    exact undenied_of_mapError (map_error_iff.mp hd) fun _ => rfl

theorem PageInfo.undenied_of_of {total : Value} {page limit : Int} (e : Failure)
    (h : PageInfo.of total page limit = .error e) : e.Undenied := by
  rcases bind_error_iff.mp h with h | ⟨pages, -, h⟩
  · exact undenied_of_mapError h fun _ => rfl
  · rcases bind_error_iff.mp h with h | ⟨documents, -, h⟩
    · exact undenied_of_mapError h fun _ => rfl
    · cases h

namespace Resolver

theorem undenied_of_document (v : Value) (e : Failure) (h : document v = .error e) :
    e.Undenied := by
  unfold document at h
  split at h
  · cases h
  · cases h
    rfl

theorem undenied_of_toRow {plaintexts : List (String × String)} (d : Document) (e : Failure)
    (h : toRow plaintexts d = .error e) : e.Undenied := by
  unfold toRow at h
  split at h
  · cases h
    rfl
  · exact undenied_of_mapError h fun _ => rfl

theorem undenied_of_toItem {plaintexts : List (String × String)} (item : Value) (e : Failure)
    (h : toItem plaintexts item = .error e) : e.Undenied := by
  unfold toItem at h
  split at h
  · cases h
    rfl
  · cases h
  · split at h
    · cases h
      rfl
    · exact undenied_of_mapError (map_error_iff.mp h) fun _ => rfl

theorem undenied_of_storedPasswords {items : List Value} (e : Failure)
    (h : storedPasswords items = .error e) : e.Undenied := by
  rcases bind_error_iff.mp h with h | ⟨found, -, h⟩
  · refine undenied_of_mapM (fun item d hd => ?_) e h
    rcases bind_error_iff.mp hd with hd | ⟨fields, -, hd⟩
    · exact undenied_of_document item d hd
    · dsimp only at hd
      split at hd
      · cases hd
      · split at hd
        · cases hd
        · cases hd
          rfl
  · cases h

/-! ## The resolver -/

variable {T : Type} [LE T] [DecidableLE T] (now : T)

theorem undenied_of_liveList (key : String) : FailsOnly Failure.Undenied (liveList now key) :=
  failsOnly_get.bind fun _ => (failsOnly_set _).bind fun _ => failsOnly_pure _

variable [Timeline T]

theorem undenied_of_decryptKeys (keys : List Key) :
    FailsOnly Failure.Undenied (decryptKeys now keys) := by
  intro r e h
  rw [decryptKeys_run] at h
  dsimp only at h
  split at h
  · cases h
    rfl
  · dsimp only at h
    split at h
    · cases h
    · cases h
      rfl

theorem undenied_of_decryptValues (values : List Value) :
    FailsOnly Failure.Undenied (decryptValues now values) := by
  unfold decryptValues
  split
  · exact undenied_of_decryptKeys now _
  · exact failsOnly_throw rfl

theorem undenied_of_resolveRows (docs : List Value) :
    FailsOnly Failure.Undenied (resolveRows now docs) :=
  (failsOnly_ofExcept (undenied_of_mapM undenied_of_document)).bind fun _ =>
    (undenied_of_decryptValues now _).bind fun _ =>
      failsOnly_ofExcept (undenied_of_mapM undenied_of_toRow)

theorem undenied_of_newList (key : String) (stored : List Value) :
    FailsOnly Failure.Undenied (newList now key stored) := by
  have hitems : FailsOnly Failure.Undenied (decryptItems now stored) :=
    (failsOnly_ofExcept undenied_of_storedPasswords).bind fun _ =>
      (undenied_of_decryptKeys now _).bind fun _ =>
        (failsOnly_ofExcept (undenied_of_mapM undenied_of_toItem)).bind fun _ => failsOnly_pure _
  refine hitems.bind fun items => failsOnly_get.bind fun r => (failsOnly_set _).bind fun _ => ?_
  split
  · exact failsOnly_pure _
  · exact failsOnly_throw rfl

end Resolver

/-! ## The store -/

theorem Store.undenied_unread (what : String) (fault : StoreFault) :
    (unread what fault).Undenied := by
  cases fault <;> rfl

theorem Store.undenied_unaggregated (timeout : Int) (fault : StoreFault) :
    (unaggregated timeout fault).Undenied := by
  cases fault <;> rfl

namespace Backend

variable {T : Type}

theorem undenied_of_record (call : StoreCall) :
    FailsOnly Failure.Undenied (record call : Action T Unit) := failsOnly_modify _

theorem undenied_of_resolve {work : T → Resolver.Action T α}
    (h : ∀ now, FailsOnly Failure.Undenied (work now)) :
    FailsOnly Failure.Undenied (resolve work) := fun b => h b.now b.resolver

theorem undenied_of_aggregate (collection : String) (timeout : Int) (p : Pipeline) :
    FailsOnly Failure.Undenied (aggregate collection timeout p : Action T (List Value)) :=
  (undenied_of_record _).bind fun _ => failsOnly_get.bind fun _ =>
    failsOnly_ofExcept fun _ h => undenied_of_mapError h (Store.undenied_unaggregated timeout)

theorem undenied_of_find (what collection : String) (projection : Document) :
    FailsOnly Failure.Undenied (find what collection projection : Action T (List Value)) :=
  (undenied_of_record _).bind fun _ => failsOnly_get.bind fun _ =>
    failsOnly_ofExcept fun _ h => undenied_of_mapError h (Store.undenied_unread what)

theorem undenied_of_findNamed (collection : String) :
    FailsOnly Failure.Undenied (findNamed collection : Action T (List Value)) :=
  (undenied_of_find _ _ _).bind fun _ => (undenied_of_record _).bind fun _ => failsOnly_pure _

theorem undenied_of_distinct (what collection field : String) :
    FailsOnly Failure.Undenied (distinct what collection field : Action T (List Value)) :=
  (undenied_of_record _).bind fun _ => failsOnly_get.bind fun _ =>
    failsOnly_ofExcept fun _ h => undenied_of_mapError h (Store.undenied_unread what)

theorem undenied_of_credentials (fields : List String) :
    FailsOnly Failure.Undenied (credentials fields : Action T (List Value)) :=
  undenied_of_find _ _ _

theorem undenied_of_crash {x : Except Crash α} :
    FailsOnly Failure.Undenied (ofExcept (x.mapError .crashed) : Action T α) :=
  failsOnly_ofExcept fun _ h => undenied_of_mapError h fun _ => rfl

theorem undenied_of_storedPasswords :
    FailsOnly Failure.Undenied (storedPasswords : Action T (List Value)) :=
  (undenied_of_credentials _).bind fun _ => undenied_of_crash

theorem undenied_of_runPage (collection : String) (timeout : Int) (p : Pipeline) :
    FailsOnly Failure.Undenied (runPage collection timeout p : Action T Page) := by
  have hrest : FailsOnly Failure.Undenied (do
      ofExcept ((Page.ofAnswer (← aggregate collection timeout p)).mapError .crashed) :
      Action T Page) :=
    (undenied_of_aggregate _ _ _).bind fun _ => undenied_of_crash
  unfold runPage
  split
  · refine FailsOnly.bind (failsOnly_throw ?_) fun _ => hrest
    rfl
  · exact hrest

theorem undenied_of_runExport (collection : String) (timeout : Int) (p : Pipeline) :
    FailsOnly Failure.Undenied (runExport collection timeout p : Action T (List Value)) := by
  unfold runExport
  split
  · refine FailsOnly.bind (failsOnly_throw ?_) fun _ => undenied_of_aggregate _ _ _
    rfl
  · exact undenied_of_aggregate _ _ _

variable [LE T] [DecidableLE T] [Timeline T]

theorem undenied_of_passwordList (key : String) {load : Action T (List Value)}
    (h : FailsOnly Failure.Undenied load) :
    FailsOnly Failure.Undenied (passwordList key load) := by
  refine (undenied_of_resolve fun now => Resolver.undenied_of_liveList now key).bind fun live => ?_
  cases live with
  | some items => exact failsOnly_pure items
  | none =>
    exact h.bind fun stored =>
      undenied_of_resolve fun now => Resolver.undenied_of_newList now key stored

end Backend

end AuditReport
