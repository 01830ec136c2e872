import AuditReport.Proofs.DecryptionBatch

/-! The states of a resolver. Whatever is asked of it, at whatever times, it goes on decrypting as
it did at first, and what it has cached stays right. -/

namespace AuditReport.Resolver

open Fallible

variable {T : Type} {α β : Type} {first r : Resolver T}

/-- A state that a resolver may be in: it decrypts and shares work as it did at first, and the
values it has cached are what their keys decrypt to. -/
structure Sound (first r : Resolver T) : Prop where
  decrypt : r.decrypt = first.decrypt
  workers : r.workers = first.workers
  ttl : r.values.ttl = first.values.ttl
  listTtl : r.lists.ttl = first.lists.ttl
  cached : r.values.All (IsPlaintext first.decrypt)

/-- No negative chunk size: there is always a way to share work. -/
def SharesWork (r : Resolver T) : Prop := ∀ n, r.workers.chunkSize = some n → 0 ≤ n

theorem sound_fresh (decrypt : String → Except DecryptionError String) (workers : Workers)
    (valueTtl listTtl : T) :
    Sound (fresh decrypt workers valueTtl listTtl) (fresh decrypt workers valueTtl listTtl) :=
  ⟨rfl, rfl, rfl, rfl, TimedCache.all_empty valueTtl⟩

theorem Sound.invalidate (h : Sound first r) : Sound first r.invalidate :=
  ⟨h.decrypt, h.workers, h.ttl, h.listTtl, TimedCache.all_clear _⟩

/-! ## Actions keep states sound -/

/-- Whether it succeeds or fails, an action leaves a sound state sound. -/
def Keeps (first : Resolver T) (x : Action T α) : Prop :=
  ∀ r, Sound first r → Sound first (x.run.run r).2

theorem keeps_bind {x : Action T α} {f : α → Action T β} (hx : Keeps first x)
    (hf : ∀ a, Keeps first (f a)) : Keeps first (x >>= f) := Preserves.bind hx hf

theorem keeps_ofExcept (x : Except Failure α) : Keeps first (ofExcept x : Action T α) :=
  preserves_ofExcept x

theorem keeps_pure (a : α) : Keeps first (pure a : Action T α) := preserves_pure a

variable [LE T] [DecidableLE T] {now : T}

theorem keeps_liveList (key : String) : Keeps first (liveList now key) :=
  fun _ h => ⟨h.decrypt, h.workers, h.ttl, TimedCache.get_ttl.trans h.listTtl, h.cached⟩

variable [Timeline T]

/-- A batch leaves a sound state behind, and answers for each of its texts what that text decrypts
to, and for no other text, if it can be told when values that are set now expire. -/
theorem decryptKeys_ok (hw : SharesWork first) (h : Sound first r) (keys : List Key) :
    Sound first ((decryptKeys now keys).run.run r).2 ∧
      ((Timeline.after? now first.values.ttl).isSome = true →
        ∃ found, ((decryptKeys now keys).run.run r).1 = .ok found ∧
          (∀ k ∈ keys, ∀ s, k.value = .text s → found.lookup s = (first.decrypt s).toOption) ∧
          ∀ s, (∀ k ∈ keys, k.value ≠ .text s) → found.lookup s = none) := by
  have hmap : ∀ missed, (r.workers.map r.decryptKey (fun _ => true) missed).result =
      .ok ((distinctBy (fun a b => a == b) missed).filterMap (Workers.answer r.decryptKey)) :=
    fun missed => Workers.map_result (h.workers ▸ hw) fun _ _ _ _ => rfl
  have hcached := h.cached
  rw [← h.decrypt] at hcached ⊢
  rw [← h.ttl]
  obtain ⟨hlooked, hleft, httl⟩ := lookUp_ok hcached now (distinctBy (fun a b => a == b) keys)
  obtain ⟨hall, hstoredTtl, hdone⟩ := store_ok hleft now fun q => right_of_mem_textResults
  rw [decryptKeys_run]
  dsimp only
  rw [hmap]
  dsimp only
  constructor
  · exact ⟨h.decrypt, h.workers, hstoredTtl.trans (httl.trans h.ttl), h.listTtl, h.decrypt ▸ hall⟩
  · intro hnow
    rw [hdone (httl.symm ▸ hnow)]
    exact ⟨_, rfl, fun k hk s hs => hlooked.lookup_eq hk hs, fun s hs => hlooked.lookup_unasked hs⟩

theorem keeps_decryptKeys (hw : SharesWork first) (keys : List Key) :
    Keeps first (decryptKeys now keys) := fun _ h => (decryptKeys_ok hw h keys).1

theorem keeps_decryptValues (hw : SharesWork first) (values : List Value) :
    Keeps first (decryptValues now values) := by
  unfold decryptValues
  split
  · exact keeps_decryptKeys hw _
  · exact fun _ h => h

theorem keeps_resolveRows (hw : SharesWork first) (docs : List Value) :
    Keeps first (resolveRows now docs) :=
  keeps_bind (keeps_ofExcept _) fun _ =>
    keeps_bind (keeps_decryptValues hw _) fun _ => keeps_ofExcept _

theorem keeps_decryptItems (hw : SharesWork first) (stored : List Value) :
    Keeps first (decryptItems now stored) :=
  keeps_bind (keeps_ofExcept _) fun _ =>
    keeps_bind (keeps_decryptKeys hw _) fun _ =>
      keeps_bind (keeps_ofExcept _) fun _ => keeps_pure _

/-- A new list holds what its stored items come to, and is put among the lists. -/
theorem newList_run {key : String} {stored : List Value} {items : List PasswordItem}
    (h : ((decryptItems now stored).run.run r).1 = .ok items) :
    (newList now key stored).run.run r =
      let after := ((decryptItems now stored).run.run r).2
      let put := after.lists.set now key (some items)
      (if put.1 then .ok items else .error (.crashed .outOfRange), { after with lists := put.2 }) := by
  unfold newList
  rw [run_bind_ok h, run_bind, run_get]
  dsimp only
  rw [run_bind, run_set]
  exact run_ite ..

theorem keeps_newList (hw : SharesWork first) (key : String) (stored : List Value) :
    Keeps first (newList now key stored) := by
  refine keeps_bind (keeps_decryptItems hw stored) fun items r h => ?_
  -- What follows only touches the lists.
  rw [run_bind, run_get]
  dsimp only
  rw [run_bind, run_set]
  dsimp only
  rw [run_ite]
  exact ⟨h.decrypt, h.workers, h.ttl, TimedCache.set_ttl.trans h.listTtl, h.cached⟩

theorem keeps_passwordList (hw : SharesWork first) (key : String)
    (load : Unit → Except Failure (List Value)) :
    Keeps first (passwordList now key load) := by
  refine keeps_bind (keeps_liveList key) fun live => ?_
  cases live with
  | some items => exact keeps_pure items
  | none => exact keeps_bind (keeps_ofExcept _) fun _ => keeps_newList hw key _

/-! ## Histories -/

/-- What can be asked of a resolver. -/
inductive Call where
  | resolveRows (docs : List Value)
  | decryptValues (values : List Value)
  /-- The password list under a key, with what loading it would yield. -/
  | passwordList (key : String) (load : Except Failure (List Value))
  | invalidate

/-- The state that a call at a time leaves, whether it succeeds or fails. -/
def step (r : Resolver T) (now : T) : Call → Resolver T
  | .resolveRows docs => ((Resolver.resolveRows now docs).run.run r).2
  | .decryptValues values => ((Resolver.decryptValues now values).run.run r).2
  | .passwordList key load => ((Resolver.passwordList now key fun _ => load).run.run r).2
  | .invalidate => r.invalidate

/-- The state that a history of calls leaves. The times may go forwards and backwards. -/
def run (r : Resolver T) (history : List (T × Call)) : Resolver T :=
  history.foldl (fun r call => r.step call.1 call.2) r

theorem sound_step (hw : SharesWork first) (h : Sound first r) (call : Call) :
    Sound first (r.step now call) := by
  cases call with
  | resolveRows docs => exact keeps_resolveRows hw docs r h
  | decryptValues values => exact keeps_decryptValues hw values r h
  | passwordList key load => exact keeps_passwordList hw key _ r h
  | invalidate => exact h.invalidate

/-- **Caches stay right.** After any history, what a resolver has cached is what it decrypts to. -/
theorem sound_run (hw : SharesWork first) (h : Sound first r) (history : List (T × Call)) :
    Sound first (r.run history) := by
  induction history generalizing r with
  | nil => exact h
  | cons call rest ih => exact ih (sound_step hw h call.2)

end AuditReport.Resolver
