import AuditReport.Proofs.CacheEntries
import AuditReport.Proofs.Fallible
import AuditReport.Proofs.WorkSharing
import AuditReport.Report.Resolver
import Mathlib.Data.List.Basic

/-! Decrypting a batch. Over a cache that holds nothing but plaintexts under their ciphertexts, a
batch answers for each of its texts what that text decrypts to, wherever the answer comes from, and
leaves such a cache behind. -/

namespace AuditReport

theorem Value.eq_text_of_equal {s : String} {v : Value} (h : (Value.text s).equal v = true) :
    v = .text s := by
  cases v with
  | text t => rw [eq_of_beq h]
  | _ => simp [Value.equal, Value.quantity?] at h

theorem Key.text_of_beq {j k : Key} {s : String} (hj : j.value = .text s)
    (h : (j == k) = true) : k.value = .text s :=
  Value.eq_text_of_equal (hj ▸ h)

namespace Resolver

open Fallible

variable {T : Type}

/-! ## Pairs of ciphertexts and plaintexts -/

section Pairs

variable {decrypt : String → Except DecryptionError String} {found : List (String × String)}
  {keys missed : List Key}

/-- A cached value is what its key decrypts to. -/
def IsPlaintext (decrypt : String → Except DecryptionError String) (s : String)
    (v : Option String) : Prop := ∃ p, v = some p ∧ decrypt s = .ok p

theorem decryptKey_ok {r : Resolver T} {k : Key} {p : String} :
    r.decryptKey k = .ok p ↔ ∃ s, k.value = .text s ∧ r.decrypt s = .ok p := by
  unfold decryptKey
  split
  · rename_i s hs
    simp [hs]
  · rename_i hs
    exact ⟨nofun, fun ⟨s, hk, _⟩ => absurd hk (hs s)⟩

theorem mem_textResults {results : List (Key × String)} {s p : String} :
    (s, p) ∈ textResults results ↔ ∃ k, (k, p) ∈ results ∧ k.value = .text s := by
  unfold textResults
  rw [List.mem_filterMap]
  constructor
  · rintro ⟨⟨k, q⟩, hmem, h⟩
    dsimp only at h
    split at h
    · rename_i t ht
      cases h
      exact ⟨k, hmem, ht⟩
    · cases h
  · rintro ⟨k, hmem, hk⟩
    exact ⟨(k, p), hmem, by simp only [hk]⟩

/-- Right pairs that leave out nothing that decrypts stand for the decryption itself. -/
theorem lookup_eq {s : String} (hright : ∀ q ∈ found, decrypt q.1 = .ok q.2)
    (htotal : ∀ p, decrypt s = .ok p → (s, p) ∈ found) :
    found.lookup s = (decrypt s).toOption := by
  cases hl : found.lookup s with
  | none =>
    cases hs : decrypt s with
    | error e => rfl
    | ok p => simpa using List.lookup_eq_none_iff.mp hl _ (htotal p hs)
  | some p =>
    obtain ⟨before, after, rfl, -⟩ := List.lookup_eq_some_iff.mp hl
    rw [hright (s, p) (by simp)]
    rfl

/-- Which keys have been found in a cache, with the right values, and which are still to decrypt. -/
structure LookedUp (decrypt : String → Except DecryptionError String) (keys missed : List Key)
    (found : List (String × String)) : Prop where
  right : ∀ q ∈ found, decrypt q.1 = .ok q.2
  asked : ∀ q ∈ found, ∃ k ∈ keys, k.value = .text q.1
  known : ∀ k ∈ missed, k ∈ keys
  total : ∀ k ∈ keys, k ∈ missed ∨ ∃ s p, k.value = .text s ∧ (s, p) ∈ found

theorem LookedUp.cons_found {k : Key} {s p : String} (h : LookedUp decrypt keys missed found)
    (hk : k.value = .text s) (hp : decrypt s = .ok p) :
    LookedUp decrypt (k :: keys) missed ((s, p) :: found) where
  right := List.forall_mem_cons.mpr ⟨hp, h.right⟩
  asked := by
    refine List.forall_mem_cons.mpr ⟨⟨k, List.mem_cons_self, hk⟩, fun q hq => ?_⟩
    obtain ⟨j, hj, hjq⟩ := h.asked q hq
    exact ⟨j, List.mem_cons_of_mem _ hj, hjq⟩
  known j hj := List.mem_cons_of_mem _ (h.known j hj)
  total := by
    refine List.forall_mem_cons.mpr ⟨.inr ⟨s, p, hk, List.mem_cons_self⟩, fun j hj => ?_⟩
    exact (h.total j hj).imp_right fun ⟨t, q, ht, hq⟩ => ⟨t, q, ht, List.mem_cons_of_mem _ hq⟩

theorem LookedUp.cons_missed {k : Key} (h : LookedUp decrypt keys missed found) :
    LookedUp decrypt (k :: keys) (k :: missed) found where
  right := h.right
  asked q hq := by
    obtain ⟨j, hj, hjq⟩ := h.asked q hq
    exact ⟨j, List.mem_cons_of_mem _ hj, hjq⟩
  known := List.forall_mem_cons.mpr
    ⟨List.mem_cons_self, fun j hj => List.mem_cons_of_mem _ (h.known j hj)⟩
  total := by
    refine List.forall_mem_cons.mpr ⟨.inl List.mem_cons_self, fun j hj => ?_⟩
    exact (h.total j hj).imp_left (List.mem_cons_of_mem _)

/-- The results for some keys are right. -/
theorem right_of_mem_textResults {r : Resolver T} {q : String × String}
    (h : q ∈ textResults (keys.filterMap (Workers.answer r.decryptKey))) :
    r.decrypt q.1 = .ok q.2 := by
  obtain ⟨j, hj, hjs⟩ := mem_textResults.mp h
  obtain ⟨i, -, hi⟩ := List.mem_filterMap.mp hj
  obtain ⟨rfl, hvalue⟩ := Workers.answer_eq_some.mp hi
  obtain ⟨t, ht, hdecrypt⟩ := decryptKey_ok.mp hvalue
  cases hjs.symm.trans ht
  exact hdecrypt

/-- Together with the results for the keys that were missed, what was found answers for all keys. -/
theorem LookedUp.lookup_eq {r : Resolver T} {s : String} {k : Key}
    (h : LookedUp r.decrypt (distinctBy (fun a b => a == b) keys) missed found) (hk : k ∈ keys)
    (hs : k.value = .text s) :
    (found ++ textResults ((distinctBy (fun a b => a == b) missed).filterMap
      (Workers.answer r.decryptKey))).lookup s = (r.decrypt s).toOption := by
  have hdistinct : ∀ ks, ∀ k ∈ ks, k.value = .text s →
      ∃ j ∈ distinctBy (fun a b : Key => a == b) ks, j.value = .text s := by
    intro ks k hk hs
    obtain ⟨j, hj, rfl | hsame⟩ : ∃ j ∈ distinctBy (fun a b : Key => a == b) ks,
        j = k ∨ (k == j) = true := exists_mem_distinctBy hk
    · exact ⟨j, hj, hs⟩
    · exact ⟨j, hj, Key.text_of_beq hs hsame⟩
  refine Resolver.lookup_eq ?_ fun p hp => ?_
  · exact List.forall_mem_append.mpr ⟨h.right, fun q => right_of_mem_textResults⟩
  · obtain ⟨j, hj, hjs⟩ := hdistinct keys k hk hs
    rcases h.total j hj with hj | ⟨t, q, ht, hq⟩
    · obtain ⟨i, hi, his⟩ := hdistinct missed j hj hjs
      have hanswer : Workers.answer r.decryptKey i = some (i, p) :=
        Workers.answer_eq_some.mpr ⟨rfl, decryptKey_ok.mpr ⟨s, his, hp⟩⟩
      refine List.mem_append_right _ (mem_textResults.mpr ⟨i, ?_, his⟩)
      exact List.mem_filterMap.mpr ⟨i, hi, hanswer⟩
    · cases hjs.symm.trans ht
      cases hp.symm.trans (h.right _ hq)
      exact List.mem_append_left _ hq

/-- Nothing is answered for texts that are not among the keys. -/
theorem LookedUp.lookup_unasked {r : Resolver T} {s : String}
    (h : LookedUp r.decrypt (distinctBy (fun a b => a == b) keys) missed found)
    (hs : ∀ k ∈ keys, k.value ≠ .text s) :
    (found ++ textResults ((distinctBy (fun a b => a == b) missed).filterMap
      (Workers.answer r.decryptKey))).lookup s = none := by
  have hdistinct : ∀ k ∈ distinctBy (fun a b => a == b) keys, k.value ≠ .text s :=
    fun k hk => hs k (mem_of_mem_distinctBy hk)
  refine List.lookup_eq_none_iff.mpr fun q hq => bne_iff_ne.mpr ?_
  rintro rfl
  rcases List.mem_append.mp hq with hq | hq
  · obtain ⟨k, hk, hkq⟩ := h.asked q hq
    exact hdistinct k hk hkq
  · obtain ⟨k, hk, hkq⟩ := mem_textResults.mp hq
    obtain ⟨j, hj, hjk⟩ := List.mem_filterMap.mp hk
    obtain ⟨rfl, -⟩ := Workers.answer_eq_some.mp hjk
    exact hdistinct j (h.known j (mem_of_mem_distinctBy hj)) hkq

end Pairs

/-! ## Caches of plaintexts -/

section Caches

variable {decrypt : String → Except DecryptionError String} {found : List (String × String)}
  {c : TimedCache T String String} {now : T} [LE T] [DecidableLE T]

/-- Looking up answers rightly and leaves only plaintexts in the cache. -/
theorem lookUp_ok (h : c.All (IsPlaintext decrypt)) (now : T) (keys : List Key) :
    LookedUp decrypt keys (lookUp now keys c).1.2 (lookUp now keys c).1.1 ∧
      (lookUp now keys c).2.All (IsPlaintext decrypt) ∧ (lookUp now keys c).2.ttl = c.ttl := by
  induction keys generalizing c with
  | nil => exact ⟨⟨nofun, nofun, nofun, nofun⟩, h, rfl⟩
  | cons k rest ih =>
    cases hk : k.value with
    | text s =>
      obtain ⟨hvalue, hleft⟩ : (∀ v, (c.get now s).1 = some v → IsPlaintext decrypt s (some v)) ∧
        (c.get now s).2.All (IsPlaintext decrypt) := h.get
      obtain ⟨hrest, hall, httl⟩ := ih hleft
      simp only [lookUp, hk]
      cases hv : (c.get now s).1 with
      | none => exact ⟨hrest.cons_missed, hall, httl.trans TimedCache.get_ttl⟩
      | some p =>
        obtain ⟨q, hq, hp⟩ := hvalue p hv
        cases hq
        exact ⟨hrest.cons_found hk hp, hall, httl.trans TimedCache.get_ttl⟩
    | _ =>
      obtain ⟨hrest, hall, httl⟩ := ih h
      simp only [lookUp, hk]
      exact ⟨hrest.cons_missed, hall, httl⟩

variable [Timeline T]

/-- Once a text cannot be put into the cache, none of those behind it is. -/
theorem store_cons (q : String × String) (rest : List (String × String)) :
    store now (q :: rest) c =
      if (c.set now q.1 (some q.2)).1 then store now rest (c.set now q.1 (some q.2)).2
      else c.set now q.1 (some q.2) := by
  unfold store
  rw [List.foldl_cons]
  dsimp only [if_true]
  generalize c.set now q.1 (some q.2) = r
  obtain ⟨_ | _, c'⟩ := r
  · exact List.foldl_fixed' (fun _ => rfl) rest
  · rfl

/-- Storing plaintexts leaves only plaintexts in the cache, and fails only if it cannot be told when
they expire. -/
theorem store_ok (h : c.All (IsPlaintext decrypt)) (now : T)
    (hf : ∀ q ∈ found, decrypt q.1 = .ok q.2) :
    (store now found c).2.All (IsPlaintext decrypt) ∧ (store now found c).2.ttl = c.ttl ∧
      ((Timeline.after? now c.ttl).isSome = true → (store now found c).1 = true) := by
  induction found generalizing c with
  | nil => exact ⟨h, rfl, fun _ => rfl⟩
  | cons q rest ih =>
    obtain ⟨hq, hrest⟩ := List.forall_mem_cons.mp hf
    have hset : (c.set now q.1 (some q.2)).2.All (IsPlaintext decrypt) := h.set ⟨q.2, rfl, hq⟩
    rw [store_cons]
    split
    · obtain ⟨hall, httl, hrestDone⟩ := ih hset hrest
      rw [TimedCache.set_ttl] at httl hrestDone
      exact ⟨hall, httl, hrestDone⟩
    · rename_i hfailed
      exact ⟨hset, TimedCache.set_ttl, fun hnow => absurd (TimedCache.set_done hnow) hfailed⟩

end Caches

/-! ## A batch -/

variable [LE T] [DecidableLE T] [Timeline T]

/-- What a batch of keys comes to, and the state that it leaves. -/
theorem decryptKeys_run (now : T) (keys : List Key) (r : Resolver T) :
    (decryptKeys now keys).run.run r =
      let looked := lookUp now (distinctBy (fun a b => a == b) keys) r.values
      let o := r.workers.map r.decryptKey (fun _ => true) looked.1.2
      let decryptions := r.decryptions ++ o.calls.map Key.value
      match o.result with
      | .error _ => (.error (.crashed .noWorkers), { r with values := looked.2, decryptions })
      | .ok results =>
        let stored := store now (textResults results) looked.2
        (if stored.1 then .ok (looked.1.1 ++ textResults results)
          else .error (.crashed .outOfRange),
          { r with values := stored.2, decryptions }) := by
  unfold decryptKeys
  rw [run_bind, run_get]
  dsimp only
  generalize lookUp now (distinctBy (fun a b => a == b) keys) r.values = looked
  obtain ⟨⟨cached, missed⟩, values⟩ := looked
  dsimp only
  rw [run_bind, run_set]
  dsimp only
  rw [run_bind, run_modify]
  dsimp only
  generalize r.workers.map r.decryptKey (fun _ => true) missed = o
  cases o.result with
  | error e => rfl
  | ok results =>
    dsimp only
    rw [run_bind, run_get]
    dsimp only
    generalize store now (textResults results) values = stored
    obtain ⟨done, values⟩ := stored
    dsimp only
    rw [run_bind, run_set]
    exact run_ite ..

end Resolver

end AuditReport
