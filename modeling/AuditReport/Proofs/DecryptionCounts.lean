import AuditReport.Proofs.FinishingOrder
import AuditReport.Proofs.ResolverStates
import Mathlib.Algebra.Order.Group.Int

/-! How often stored passwords are decrypted. As long as nothing that a resolver has cached expires, a
password that decrypts is decrypted in the first batch that has it and never again, and one that does
not decrypt is tried once by every batch that has it. -/

namespace AuditReport

/-! ## Caches in which nothing expires -/

namespace TimedCache

variable {T K V : Type} {c : TimedCache T K V} {times : List T} {now : T} {key : K}

theorem mem_keys_put [BEq K] [LawfulBEq K] {e : CacheEntry T K V}
    {entries : List (CacheEntry T K V)} :
    key ∈ (put e entries).map (·.key) ↔ key = e.key ∨ key ∈ entries.map (·.key) := by
  induction entries with
  | nil => simp [put]
  | cons f rest ih =>
    unfold put
    split
    · next hkey => simp [eq_of_beq hkey]
    · rw [List.map_cons, List.mem_cons, ih, List.map_cons, List.mem_cons, or_left_comm]

variable [LE T]

/-- No entry expires at any of some times. -/
def Lasting (times : List T) (c : TimedCache T K V) : Prop :=
  ∀ e ∈ c.entries, ∀ t ∈ times, ¬e.expires ≤ t

theorem lasting_empty (ttl : T) : Lasting times (empty ttl : TimedCache T K V) := nofun

variable [DecidableLE T]

theorem Lasting.get [BEq K] [LawfulBEq K] (h : Lasting times c) (hnow : now ∈ times) :
    c.get now key = ((c.entry? key).bind (·.value), c) := by
  unfold TimedCache.get
  split
  · next hnone => rw [hnone]; rfl
  · next e hsome =>
    rw [if_neg (h e (entry?_some hsome).1 now hnow), hsome]
    rfl

theorem Lasting.sweep (h : Lasting times c) (hnow : now ∈ times) : c.sweep now = c := by
  have hall : c.entries.filter (fun e => !decide (e.expires ≤ now)) = c.entries :=
    List.filter_eq_self.mpr fun e he => by simp [h e he now hnow]
  unfold TimedCache.sweep
  rw [hall]

/-- Setting drops nothing, and what is set lasts too if it does not expire at any of the times. -/
theorem Lasting.set [Timeline T] [BEq K] [LawfulBEq K] {v : Option V} {expires : T}
    (h : Lasting times c) (hnow : now ∈ times) (hexpires : Timeline.after? now c.ttl = some expires)
    (hlasts : ∀ t ∈ times, ¬expires ≤ t) :
    Lasting times (c.set now key v).2 ∧
      ∀ k, k ∈ (c.set now key v).2.keys ↔ k = key ∨ k ∈ c.keys := by
  unfold TimedCache.set expiry?
  dsimp only
  rw [h.sweep hnow, hexpires]
  constructor
  · intro e he
    rcases mem_put he with rfl | he
    · exact hlasts
    · exact h e he
  · intro k
    exact mem_keys_put

end TimedCache

namespace Resolver

open Fallible

variable {T : Type} {first r : Resolver T} {times : List T} {now : T}
  {decrypt : String → Except DecryptionError String}

/-! ## Stored passwords in batches -/

/-- The value is a given text. -/
def isText (s : String) : Value → Bool
  | .text t => t == s
  | _ => false

theorem isText_iff {s : String} {v : Value} : isText s v = true ↔ v = .text s := by
  cases v <;> simp [isText]

/-- Some key of a batch is a given text. -/
def meets (s : String) (batch : List Key) : Bool := batch.any fun k => isText s k.value

theorem meets_iff {s : String} {batch : List Key} :
    meets s batch = true ↔ ∃ k ∈ batch, k.value = .text s := by
  simp [meets, isText_iff]

/-- A batch has each of its texts once. -/
theorem countP_isText_distinctBy (s : String) (batch : List Key) :
    (distinctBy (fun a b => a == b) batch).countP (fun k => isText s k.value) =
      if meets s batch then 1 else 0 := by
  refine countP_distinctBy (fun j k hj hk => ?_) (fun j k hj hjk => ?_) batch
  · show j.value.equal k.value = true
    rw [isText_iff.mp hj, isText_iff.mp hk, Value.equal, beq_self_eq_true]
  · exact isText_iff.mpr (Key.text_of_beq (isText_iff.mp hj) hjk)

theorem meets_distinctBy (s : String) (batch : List Key) :
    meets s (distinctBy (fun a b => a == b) batch) = meets s batch := by
  have hcount := countP_isText_distinctBy s batch
  rw [Bool.eq_iff_iff]
  constructor
  · rw [meets_iff, meets_iff]
    rintro ⟨k, hk, hks⟩
    exact ⟨k, mem_of_mem_distinctBy hk, hks⟩
  · intro h
    have hpos : 0 < (distinctBy (fun a b => a == b) batch).countP fun k => isText s k.value := by
      simp [hcount, h]
    exact List.any_eq_true.mpr (List.countP_pos_iff.mp hpos)

/-- The texts found are those met that decrypt. -/
theorem exists_mem_textResults {missed : List Key} {found : List (Key × String)}
    (hfound : found.Perm ((Workers.firsts missed).filterMap (Workers.answer r.decryptKey)))
    (s : String) :
    (∃ p, (s, p) ∈ textResults found) ↔ meets s missed = true ∧ ∃ p, r.decrypt s = .ok p := by
  constructor
  · rintro ⟨p, hp⟩
    obtain ⟨k, hk, hks⟩ := mem_textResults.mp hp
    obtain ⟨j, hj, hanswer⟩ := List.mem_filterMap.mp (hfound.mem_iff.mp hk)
    obtain ⟨rfl, hvalue⟩ := Workers.answer_eq_some.mp hanswer
    obtain ⟨t, ht, hdecrypt⟩ := decryptKey_ok.mp hvalue
    cases hks.symm.trans ht
    exact ⟨meets_iff.mpr ⟨j, mem_of_mem_distinctBy hj, hks⟩, p, hdecrypt⟩
  · rintro ⟨hmet, p, hp⟩
    rw [← meets_distinctBy, meets_iff] at hmet
    obtain ⟨k, hk, hks⟩ := hmet
    have hvalue : r.decryptKey k = .ok p := decryptKey_ok.mpr ⟨s, hks, hp⟩
    refine ⟨p, mem_textResults.mpr ⟨k, hfound.mem_iff.mpr ?_, hks⟩⟩
    exact List.mem_filterMap.mpr ⟨k, hk, Workers.answer_eq_some.mpr ⟨rfl, hvalue⟩⟩

/-- The key is not a text that the cache holds. -/
def Unheld (c : TimedCache T String String) (k : Key) : Prop := ∀ s, k.value = .text s → s ∉ c.keys

theorem mem_cons_missed {c : TimedCache T String String} {j k : Key} {missed rest : List Key} (hj : Unheld c j)
    (h : k ∈ missed ↔ k ∈ rest ∧ Unheld c k) : k ∈ j :: missed ↔ k ∈ j :: rest ∧ Unheld c k := by
  rw [List.mem_cons, List.mem_cons, h]
  constructor
  · rintro (rfl | ⟨hk, hunheld⟩)
    · exact ⟨.inl rfl, hj⟩
    · exact ⟨.inr hk, hunheld⟩
  · rintro ⟨rfl | hk, hunheld⟩
    · exact .inl rfl
    · exact .inr ⟨hk, hunheld⟩

/-- How often a stored password has been decrypted. -/
def timesDecrypted (r : Resolver T) (s : String) : Nat := r.decryptions.countP (isText s)

/-- How often some batches, one after the other, call for a stored password to be decrypted: once in
all if it decrypts, and otherwise as often as there are batches that have it. -/
def timesDue (decrypt : String → Except DecryptionError String) (batches : List (List Key))
    (s : String) : Nat :=
  match decrypt s with
  | .ok _ => if batches.any (meets s) then 1 else 0
  | .error _ => batches.countP (meets s)

/-- What a batch that misses the texts which are not held adds to the tally. -/
theorem timesDue_concat {past : List (List Key)} {batch : List Key} {s : String} {held : Prop}
    [Decidable held]
    (hheld : held ↔ (∃ p, decrypt s = .ok p) ∧ past.any (meets s) = true) :
    timesDue decrypt (past ++ [batch]) s =
      timesDue decrypt past s + if meets s batch ∧ ¬held then 1 else 0 := by
  unfold timesDue
  cases hs : decrypt s with
  | ok p =>
    have hmet : held ↔ past.any (meets s) = true := by simp [hheld, hs]
    simp only [List.any_append, List.any_cons, List.any_nil, Bool.or_false, hmet]
    cases past.any (meets s) <;> simp
  | error e =>
    have hnever : ¬held := by simp [hheld, hs]
    simp [List.countP_append, hnever, List.countP_cons]

/-! ## One batch -/

variable [LE T]

/-- A resolver after some batches at times within the life of its values: it holds what decrypts of
what it has met, and it has decrypted each text as often as the batches call for. -/
structure Tallied (first r : Resolver T) (times : List T) (past : List (List Key)) : Prop where
  sound : Sound first r
  lasting : r.values.Lasting times
  held : ∀ s, s ∈ r.values.keys ↔ (∃ p, first.decrypt s = .ok p) ∧ past.any (meets s) = true
  tally : ∀ s, r.timesDecrypted s = timesDue first.decrypt past s

theorem tallied_fresh (decrypt : String → Except DecryptionError String) (workers : Workers)
    (valueTtl listTtl : T) (times : List T) :
    Tallied (fresh decrypt workers valueTtl listTtl) (fresh decrypt workers valueTtl listTtl)
      times [] where
  sound := sound_fresh ..
  lasting := TimedCache.lasting_empty valueTtl
  held s := by simp [fresh, TimedCache.empty, TimedCache.keys]
  tally s := by
    unfold timesDue
    split <;> rfl

/-- What neither decrypts nor touches the values leaves the tally as it is. -/
theorem Tallied.idle {r' : Resolver T} {past : List (List Key)} (h : Tallied first r times past)
    (hsound : Sound first r') (hvalues : r'.values = r.values)
    (hdecryptions : r'.decryptions = r.decryptions) : Tallied first r' times past where
  sound := hsound
  lasting := hvalues ▸ h.lasting
  held := hvalues ▸ h.held
  tally s := by
    unfold timesDecrypted
    rw [hdecryptions]
    exact h.tally s

section Batch

variable [DecidableLE T] {c : TimedCache T String String} {found : List (String × String)}

/-- Where nothing expires, looking up leaves the cache as it is and misses just what is not held. -/
theorem lookUp_lasting (h : c.All (IsPlaintext decrypt)) (hlasting : c.Lasting times)
    (hnow : now ∈ times) (keys : List Key) :
    (lookUp now keys c).2 = c ∧
      ∀ k, k ∈ (lookUp now keys c).1.2 ↔ k ∈ keys ∧ Unheld c k := by
  induction keys with
  | nil => simp [lookUp]
  | cons j rest ih =>
    obtain ⟨hcache, hmissed⟩ := ih
    cases hj : j.value with
    | text s =>
      simp only [lookUp, hj, hlasting.get hnow]
      cases hs : c.entry? s with
      | none =>
        have hunheld : Unheld c j := by
          intro t ht
          cases hj.symm.trans ht
          exact TimedCache.entry?_eq_none hs
        refine ⟨hcache, fun k => ?_⟩
        rw [Option.bind_none]
        exact mem_cons_missed hunheld (hmissed k)
      | some e =>
        obtain ⟨he, rfl⟩ := TimedCache.entry?_some hs
        obtain ⟨p, hp, -⟩ := h e he
        refine ⟨by simpa [hp] using hcache, fun k => ?_⟩
        simp only [Option.bind_some, hp, List.mem_cons, hmissed]
        constructor
        · rintro ⟨hk, hall⟩
          exact ⟨.inr hk, hall⟩
        · rintro ⟨rfl | hk, hall⟩
          · exact absurd (List.mem_map_of_mem he) (hall e.key hj)
          · exact ⟨hk, hall⟩
    | _ =>
      have hunheld : Unheld c j := by simp [Unheld, hj]
      simp only [lookUp, hj]
      exact ⟨hcache, fun k => mem_cons_missed hunheld (hmissed k)⟩

/-- What a batch misses of its distinct keys are the texts that are not held. -/
theorem meets_missed (h : c.All (IsPlaintext decrypt)) (hlasting : c.Lasting times)
    (hnow : now ∈ times) (batch : List Key) (s : String) :
    meets s (lookUp now (distinctBy (fun a b => a == b) batch) c).1.2 = true ↔
      meets s batch = true ∧ s ∉ c.keys := by
  obtain ⟨-, hmissed⟩ := lookUp_lasting h hlasting hnow (distinctBy (fun a b => a == b) batch)
  rw [← meets_distinctBy s batch, meets_iff, meets_iff]
  constructor
  · rintro ⟨k, hk, hks⟩
    obtain ⟨hk, hall⟩ := (hmissed k).mp hk
    exact ⟨⟨k, hk, hks⟩, hall s hks⟩
  · rintro ⟨⟨k, hk, hks⟩, habsent⟩
    refine ⟨k, (hmissed k).mpr ⟨hk, fun t ht => ?_⟩, hks⟩
    cases hks.symm.trans ht
    exact habsent

variable [Timeline T]

/-- All of some times lie within one time to live, as the clock adds: what is set at one of them has
expired at none. -/
def WithinLife (ttl : T) (times : List T) : Prop :=
  ∀ s ∈ times, ∀ t ∈ times, ∃ e, Timeline.after? s ttl = some e ∧ ¬e ≤ t

/-- On a clock that adds exactly, times in an interval shorter than the time to live lie within it. -/
theorem withinLife_of_interval {T : Type} [AddCommGroup T] [LinearOrder T] [IsOrderedAddMonoid T]
    [Timeline T] (hafter : ∀ s d : T, Timeline.after? s d = some (s + d)) {low high ttl : T}
    (hshort : high - low < ttl) {times : List T} (h : ∀ t ∈ times, low ≤ t ∧ t ≤ high) :
    WithinLife ttl times := by
  intro s hs t ht
  refine ⟨s + ttl, hafter s ttl, not_le.mpr ?_⟩
  calc t ≤ high := (h t ht).2
    _ = low + (high - low) := (add_sub_cancel low high).symm
    _ ≤ s + (high - low) := add_le_add_left (h s hs).1 _
    _ < s + ttl := add_lt_add_right hshort s

/-- Where nothing expires, storing adds the texts to what is held. -/
theorem store_lasting (hlife : WithinLife c.ttl times) (h : c.Lasting times) (hnow : now ∈ times) :
    (store now found c).2.Lasting times ∧
      ∀ s, s ∈ (store now found c).2.keys ↔ s ∈ c.keys ∨ ∃ p, (s, p) ∈ found := by
  induction found generalizing c with
  | nil => exact ⟨h, fun s => by simp [store]⟩
  | cons q rest ih =>
    obtain ⟨expires, hexpires, -⟩ := hlife now hnow now hnow
    have hlasts : ∀ t ∈ times, ¬expires ≤ t := by
      intro t ht
      obtain ⟨e, he, hlive⟩ := hlife now hnow t ht
      cases hexpires.symm.trans he
      exact hlive
    have hdone : (c.set now q.1 (some q.2)).1 = true := TimedCache.set_done (by simp [hexpires])
    obtain ⟨hset, hsetKeys⟩ : (c.set now q.1 (some q.2)).2.Lasting times ∧
        ∀ s, s ∈ (c.set now q.1 (some q.2)).2.keys ↔ s = q.1 ∨ s ∈ c.keys :=
      h.set hnow hexpires hlasts
    have hsetLife : WithinLife (c.set now q.1 (some q.2)).2.ttl times := by
      rwa [TimedCache.set_ttl]
    obtain ⟨hlasting, hkeys⟩ := ih hsetLife hset
    rw [store_cons, if_pos hdone]
    refine ⟨hlasting, fun s => ?_⟩
    rw [hkeys, hsetKeys]
    constructor
    · rintro ((rfl | hs) | ⟨p, hp⟩)
      · exact .inr ⟨q.2, List.mem_cons_self⟩
      · exact .inl hs
      · exact .inr ⟨p, List.mem_cons_of_mem q hp⟩
    · rintro (hs | ⟨p, hp⟩)
      · exact .inl (.inr hs)
      · rcases List.mem_cons.mp hp with rfl | hp
        · exact .inl (.inl rfl)
        · exact .inr ⟨p, hp⟩

/-- A batch calls for each of its texts that is not held, once, and stores those that decrypt. -/
theorem decryptKeys_lasting (hw : SharesWork first) (hnow : now ∈ times) (hsound : Sound first r)
    (hlasting : r.values.Lasting times) (batch : List Key) :
    ∃ calls found, ((decryptKeys now batch).run.run r).2 =
        { r with values := (store now found r.values).2,
                 decryptions := r.decryptions ++ calls } ∧
      (∀ s, calls.countP (isText s) = if meets s batch = true ∧ s ∉ r.values.keys then 1 else 0) ∧
      ∀ s, (∃ p, (s, p) ∈ found) ↔
        (meets s batch = true ∧ s ∉ r.values.keys) ∧ ∃ p, first.decrypt s = .ok p := by
  obtain ⟨hcache, -⟩ := lookUp_lasting hsound.cached hlasting hnow
    (distinctBy (fun a b => a == b) batch)
  have hmeets := meets_missed hsound.cached hlasting hnow batch
  have hworkers : ∀ n, r.workers.chunkSize = some n → 0 ≤ n := hsound.workers ▸ hw
  rw [decryptKeys_run]
  dsimp only
  rw [hcache]
  -- What was found in the cache only goes into the answer; the calls depend on what was missed.
  generalize (lookUp now (distinctBy (fun a b => a == b) batch) r.values).1 = looked at hmeets ⊢
  obtain ⟨cached, missed⟩ := looked
  obtain ⟨hcalls, found, hresult, hfound⟩ :=
    (Workers.ends_map r.workers r.decryptKey (fun _ => true) missed).recovered hworkers
      fun _ _ _ _ => rfl
  rw [hresult]
  refine ⟨_, textResults found, rfl, fun s => ?_, fun s => ?_⟩
  · rw [List.countP_map]
    refine (hcalls.countP_eq _).trans ?_
    have hcount := countP_isText_distinctBy s missed
    simp only [hmeets] at hcount
    exact hcount
  · rw [exists_mem_textResults hfound, hmeets, hsound.decrypt]

/-- **One batch.** It decrypts each of its texts that is not held, once, and holds from then on what
decrypts. -/
theorem Tallied.decryptKeys (hw : SharesWork first) (hlife : WithinLife first.values.ttl times)
    (hnow : now ∈ times) {past : List (List Key)} (h : Tallied first r times past)
    (batch : List Key) :
    Tallied first ((decryptKeys now batch).run.run r).2 times (past ++ [batch]) := by
  have hsound : Sound first ((Resolver.decryptKeys now batch).run.run r).2 :=
    (decryptKeys_ok hw h.sound batch).1
  obtain ⟨calls, found, hstate, hcalls, hfound⟩ :=
    decryptKeys_lasting hw hnow h.sound h.lasting batch
  obtain ⟨hlasting, hkeys⟩ : (store now found r.values).2.Lasting times ∧
      ∀ s, s ∈ (store now found r.values).2.keys ↔ s ∈ r.values.keys ∨ ∃ p, (s, p) ∈ found :=
    store_lasting (h.sound.ttl ▸ hlife) h.lasting hnow
  rw [hstate] at hsound ⊢
  refine ⟨hsound, hlasting, fun s => ?_, fun s => ?_⟩
  · rw [hkeys, hfound, h.held, List.any_append, Bool.or_eq_true]
    have hlast : [batch].any (meets s) = true ↔ meets s batch = true := by simp
    rw [hlast]
    tauto
  · unfold timesDecrypted
    rw [List.countP_append, hcalls, timesDue_concat (h.held s)]
    exact congrArg (· + _) (h.tally s)

end Batch

/-! ## Runs -/

variable [DecidableLE T] [Timeline T]

/-- The keys that a call has decrypted as one batch: the stored passwords of the rows asked for, or of
the list that is loaded. There is none if the call fails before, or is answered with a live list. -/
def batch? (r : Resolver T) (now : T) : Call → Option (List Key)
  | .resolveRows docs => (docs.mapM document).toOption.bind fun ds =>
    Key.ofValues? (ds.flatMap fun d => (Row.ciphertexts d).map Value.text)
  | .decryptValues values => Key.ofValues? values
  | .passwordList key load =>
    match (r.lists.get now key).1 with
    | some _ => none
    | none => load.toOption.bind fun stored => (storedPasswords stored).toOption
  | .invalidate => none

/-- The batches of a history of calls. -/
def batches (r : Resolver T) : List (T × Call) → List (List Key)
  | [] => []
  | (now, call) :: rest => (r.batch? now call).toList ++ (r.step now call).batches rest

theorem run_cons (r : Resolver T) (now : T) (call : Call) (rest : List (T × Call)) :
    r.run ((now, call) :: rest) = (r.step now call).run rest := rfl

section Steps

variable {past : List (List Key)} (hw : SharesWork first)
  (hlife : WithinLife first.values.ttl times) (hnow : now ∈ times)
include hw hlife hnow

theorem Tallied.decryptValues (h : Tallied first r times past) (values : List Value) :
    Tallied first ((Resolver.decryptValues now values).run.run r).2 times
      (past ++ (Key.ofValues? values).toList) := by
  unfold Resolver.decryptValues
  cases Key.ofValues? values with
  | none =>
    rw [Option.toList_none, List.append_nil]
    exact h
  | some keys => exact h.decryptKeys hw hlife hnow keys

theorem Tallied.resolveRows (h : Tallied first r times past) (docs : List Value) :
    Tallied first ((Resolver.resolveRows now docs).run.run r).2 times
      (past ++ (r.batch? now (.resolveRows docs)).toList) := by
  unfold Resolver.resolveRows
  rw [run_ofExcept_bind]
  dsimp only [batch?]
  cases docs.mapM document with
  | error e => simpa [Except.toOption] using h
  | ok ds =>
    dsimp only
    rw [run_bind_idle fun _ _ => congrArg Prod.snd (run_ofExcept ..)]
    exact h.decryptValues hw hlife hnow _

theorem Tallied.decryptItems (h : Tallied first r times past) (stored : List Value) :
    Tallied first ((Resolver.decryptItems now stored).run.run r).2 times
      (past ++ (storedPasswords stored).toOption.toList) := by
  unfold Resolver.decryptItems
  rw [run_ofExcept_bind]
  cases storedPasswords stored with
  | error e => simpa [Except.toOption] using h
  | ok keys =>
    dsimp only
    rw [run_bind_idle]
    · exact h.decryptKeys hw hlife hnow keys
    · intro plaintexts s
      rw [run_bind_idle fun _ _ => rfl, run_ofExcept]

theorem Tallied.newList (h : Tallied first r times past) (key : String) (stored : List Value) :
    Tallied first ((Resolver.newList now key stored).run.run r).2 times
      (past ++ (storedPasswords stored).toOption.toList) := by
  have hitems := h.decryptItems hw hlife hnow stored
  have hsound : Sound first ((Resolver.newList now key stored).run.run r).2 :=
    keeps_newList hw key stored r h.sound
  cases hresult : ((Resolver.decryptItems now stored).run.run r).1 with
  | ok items =>
    rw [newList_run hresult] at hsound ⊢
    exact hitems.idle hsound rfl rfl
  | error e =>
    unfold Resolver.newList
    rw [run_bind_error hresult]
    exact hitems

theorem Tallied.passwordList (h : Tallied first r times past) (key : String)
    (load : Except Failure (List Value)) :
    Tallied first ((Resolver.passwordList now key fun _ => load).run.run r).2 times
      (past ++ (r.batch? now (.passwordList key load)).toList) := by
  have hlive : Tallied first ((liveList now key).run.run r).2 times past :=
    h.idle (keeps_liveList key r h.sound) rfl rfl
  have hlooked : ((liveList now key).run.run r).1 = .ok (r.lists.get now key).1 := rfl
  unfold Resolver.passwordList
  rw [run_bind_ok hlooked]
  dsimp only [batch?]
  cases (r.lists.get now key).1 with
  | some items =>
    rw [Option.toList_none, List.append_nil]
    exact hlive
  | none =>
    dsimp only
    rw [run_ofExcept_bind]
    cases load with
    | error e => simpa [Except.toOption] using hlive
    | ok stored => exact hlive.newList hw hlife hnow key stored

/-- **One call.** Apart from dropping what is cached, it adds its batch, if it starts one, to the
tally. -/
theorem Tallied.step (h : Tallied first r times past) {call : Call} (hcall : call ≠ .invalidate) :
    Tallied first (r.step now call) times (past ++ (r.batch? now call).toList) := by
  cases call with
  | resolveRows docs => exact h.resolveRows hw hlife hnow docs
  | decryptValues values => exact h.decryptValues hw hlife hnow values
  | passwordList key load => exact h.passwordList hw hlife hnow key load
  | invalidate => exact absurd rfl hcall

end Steps

theorem Tallied.run (hw : SharesWork first) (hlife : WithinLife first.values.ttl times)
    {past : List (List Key)} (h : Tallied first r times past) {history : List (T × Call)}
    (htimes : ∀ p ∈ history, p.1 ∈ times) (hcalls : ∀ p ∈ history, p.2 ≠ .invalidate) :
    Tallied first (r.run history) times (past ++ r.batches history) := by
  -- The batches of the rest depend on the state that the first call leaves, so both vary.
  induction history generalizing r past with
  | nil => simpa [Resolver.run, batches] using h
  | cons p rest ih =>
    obtain ⟨now, call⟩ := p
    obtain ⟨hnow, htimes⟩ := List.forall_mem_cons.mp htimes
    obtain ⟨hcall, hcalls⟩ := List.forall_mem_cons.mp hcalls
    rw [run_cons, batches, ← List.append_assoc]
    exact ih (h.step hw hlife hnow hcall) htimes hcalls

/-- A list that is live is the answer, and nothing is loaded or decrypted for it. -/
theorem passwordList_live {key : String} {items : List PasswordItem}
    (h : (r.lists.get now key).1 = some items) (load : Except Failure (List Value)) :
    ((passwordList now key fun _ => load).run.run r).1 = .ok items ∧
      (r.step now (.passwordList key load)).decryptions = r.decryptions ∧
      (r.step now (.passwordList key load)).loads = r.loads := by
  have hlooked : ((liveList now key).run.run r).1 = .ok (some items) := by
    rw [← h]
    rfl
  have hrun : (passwordList now key fun _ => load).run.run r =
      (.ok items, ((liveList now key).run.run r).2) := by
    unfold passwordList
    rw [run_bind_ok hlooked]
    rfl
  refine ⟨by rw [hrun], ?_, ?_⟩
  · rw [Resolver.step, hrun]
    rfl
  · rw [Resolver.step, hrun]
    show (if (r.lists.get now key).1.isSome then _ else _) = _
    rw [h]
    rfl

/-- **Each stored password is decrypted once while it is cached.** Take any history of calls in which
nothing is dropped and whose times all lie within one time to live of the cached values. A stored
password that decrypts, be it to the empty text, is decrypted once in all if some batch has it, and
not at all otherwise; one that does not is tried once by each batch that has it. A call that is
answered with a live list starts no batch: it answers with that list and neither loads nor decrypts
anything. -/
theorem decrypted_once_while_cached (decrypt : String → Except DecryptionError String)
    (workers : Workers) (valueTtl listTtl : T) (hw : ∀ n, workers.chunkSize = some n → 0 ≤ n)
    (history : List (T × Call)) (hcalls : ∀ p ∈ history, p.2 ≠ .invalidate)
    (hlife : WithinLife valueTtl (history.map Prod.fst)) :
    let first := fresh decrypt workers valueTtl listTtl
    (∀ s, (first.run history).timesDecrypted s =
      match decrypt s with
      | .ok _ => if (first.batches history).any (meets s) then 1 else 0
      | .error _ => (first.batches history).countP (meets s)) ∧
    ∀ earlier now key load later items, history = earlier ++ (now, .passwordList key load) :: later →
      ((first.run earlier).lists.get now key).1 = some items →
      let r := first.run earlier
      r.batch? now (.passwordList key load) = none ∧
      ((passwordList now key fun _ => load).run.run r).1 = .ok items ∧
      (r.step now (.passwordList key load)).decryptions = r.decryptions ∧
      (r.step now (.passwordList key load)).loads = r.loads := by
  intro first
  constructor
  · have hfirst := tallied_fresh decrypt workers valueTtl listTtl (history.map Prod.fst)
    have hshares : SharesWork first := hw
    exact (hfirst.run hshares hlife (fun p hp => List.mem_map_of_mem hp) hcalls).tally
  · intro earlier now key load later items _ hlive
    exact ⟨by simp only [batch?, hlive], passwordList_live hlive load⟩

/-- A password that decrypts to the empty text and one that does not decrypt, met by three batches, and
a list that is answered while it is live. -/
theorem decrypted_once_while_cached_empty :
    let decrypt (s : String) : Except DecryptionError String :=
      if s = "c" then .ok "" else .error .noSeparator
    let item (s : String) : Value := .object [("password", .text s), ("ota_type", .text "agoda")]
    let d : Value := .object [("type_of_ota", .list [.text "Agoda"]),
      ("credentials", .object [("agoda_password", .text "c")])]
    let history : List (Int × Call) := [(0, .decryptValues [.text "c", .text "x", .text "c"]),
      (3, .resolveRows [d, d]), (4, .passwordList "k" (.ok [item "c", item "x", item "x"])),
      (8, .passwordList "k" (.ok [item "y"])), (9, .decryptValues [.text "x"])]
    let first : Resolver Int := fresh decrypt ⟨2, none⟩ 10 100
    WithinLife 10 (history.map Prod.fst) ∧ (first.run history).timesDecrypted "c" = 1 ∧
      (first.run history).timesDecrypted "x" = 3 ∧ (first.run history).timesDecrypted "y" = 0 := by
  intro decrypt item d history first
  have hlife : WithinLife 10 (history.map Prod.fst) :=
    withinLife_of_interval (fun _ _ => rfl) (show (9 : Int) - 0 < 10 by decide) (by decide)
  obtain ⟨htally, -⟩ := decrypted_once_while_cached decrypt ⟨2, none⟩ (10 : Int) 100 nofun history
    (by simp [history]) hlife
  exact ⟨hlife, (htally "c").trans (by decide +kernel), (htally "x").trans (by decide +kernel),
    (htally "y").trans (by decide +kernel)⟩

end Resolver

end AuditReport
