import AuditReport.Proofs.CacheFollowing

/-! A cache answers every run of calls as its history calls for, although it drops what has expired
at one call and only passes over it at another. -/

namespace AuditReport.TimedCache

variable {T K V E : Type} [DecidableEq K]

section

variable [LinearOrder T] [Timeline T]

def call (c : TimedCache T K V) (now : T) : Call T K V E → Answer V E × TimedCache T K V
  | .get key => let (v, c) := c.get now key; (.found v, c)
  | .set key value => let (done, c) := c.set now key (some value); (.stored done, c)
  | .getOrCompute key computed later =>
    let ((result, called), c) := c.getOrCompute now later key fun _ => computed.map some
    (.computed result called, c)
  | .drop key => (.done, c.erase key)
  | .clear => (.done, c.clear)
  | .size => (.number (c.size now), c)
  | .contains key => let (b, c) := c.contains now key; (.held b, c)

def run (c : TimedCache T K V) : List (T × Call T K V E) → List (Answer V E) × TimedCache T K V
  | [] => ([], c)
  | (now, k) :: rest =>
    let (answer, c) := c.call now k
    let (answers, c) := run c rest
    (answer :: answers, c)

end

section

variable [AddCommGroup T] [LinearOrder T] [Timeline T] {ttl now : T} {c : TimedCache T K V}
  {past : List (Mark T K V)} {upcoming : List T}

/-- One call: it answers as the history calls for, and the cache follows the history that it makes. -/
theorem Follows.call (hafter : ∀ s d : T, Timeline.after? s d = some (s + d)) {k : Call T K V E}
    (h : Follows ttl c past (k.readings now ++ upcoming))
    (hclock : (k.readings now ++ upcoming).Pairwise (· ≤ ·)) :
    (c.call now k).1 = expected ttl past now k ∧
      Follows ttl (c.call now k).2 (record ttl past now k ++ past) upcoming := by
  have hmem : now ∈ k.readings now := by cases k <;> simp [Call.readings]
  have hnow : now ∈ k.readings now ++ upcoming := List.mem_append_left _ hmem
  have hrest : ∀ t ∈ upcoming, now ≤ t := fun t ht =>
    (List.pairwise_append.mp hclock).2.2 now hmem t ht
  have hfewer : Follows ttl c past upcoming := h.mono fun t ht => List.mem_append_right _ ht
  cases k with
  | get key =>
    have hget : (c.get now key).1 = live ttl past now key := h.get hnow
    exact ⟨congrArg Answer.found hget, hfewer.after_get hrest⟩
  | set key v =>
    obtain ⟨hdone, hset⟩ := hfewer.set hafter hrest
    exact ⟨congrArg Answer.stored hdone, hset⟩
  | getOrCompute key computed later =>
    have hget : (c.get now key).1 = live ttl past now key := h.get hnow
    obtain ⟨-, hlater⟩ := List.pairwise_cons.mp hclock
    have hready : ∀ t ∈ upcoming, later ≤ t := (List.pairwise_cons.mp hlater).1
    have hlooked : Follows ttl (c.get now key).2 past upcoming := hfewer.after_get hrest
    unfold TimedCache.call expected record
    dsimp only
    cases hlive : live ttl past now key with
    | some v =>
      rw [getOrCompute_found (hget.trans hlive)]
      exact ⟨rfl, hlooked⟩
    | none =>
      -- The value is set at `later`, in what the lookup at `now` has left.
      rw [getOrCompute_missed (hget.trans hlive)]
      cases computed with
      | error e => exact ⟨rfl, hlooked⟩
      | ok v =>
        obtain ⟨hdone, hset⟩ := hlooked.set hafter hready
        refine ⟨?_, hset⟩
        show Answer.computed (if _ then _ else _) true = _
        rw [if_pos hdone]
  | drop key => exact ⟨rfl, hfewer.erase⟩
  | clear => exact ⟨rfl, hfewer.clear⟩
  | size =>
    exact ⟨congrArg Answer.number (h.size hnow), hfewer⟩
  | contains key =>
    have hget : (c.get now key).1 = live ttl past now key := h.get hnow
    have hheld : (c.contains now key).1 = (live ttl past now key).isSome := congrArg Option.isSome hget
    exact ⟨congrArg Answer.held hheld, hfewer.after_get hrest⟩

/-- All calls: by induction, as each call leaves a cache that follows the history. -/
theorem Follows.run (hafter : ∀ s d : T, Timeline.after? s d = some (s + d))
    {calls : List (T × Call T K V E)} (h : Follows ttl c past (readings calls ++ upcoming))
    (hclock : (readings calls ++ upcoming).Pairwise (· ≤ ·)) :
    (c.run calls).1 = expectedAnswers ttl past calls ∧
      Follows ttl (c.run calls).2 (history ttl past calls) upcoming := by
  induction calls generalizing c past with
  | nil => exact ⟨rfl, h⟩
  | cons p rest ih =>
    obtain ⟨now, k⟩ := p
    rw [readings_cons, List.append_assoc] at h hclock
    obtain ⟨hanswer, hstep⟩ := h.call hafter hclock
    obtain ⟨hanswers, hrun⟩ := ih hstep (List.pairwise_append.mp hclock).2.1
    exact ⟨congrArg₂ List.cons hanswer hanswers, hrun⟩

/-- A computation that fails leaves every live entry as it was. -/
theorem Follows.call_failed {key : K} {e : E} {later : T} (h : Follows ttl c past upcoming) :
    LiveUnchanged now c (c.call now (.getOrCompute key (.error e) later)).2 := by
  have hget : LiveUnchanged now c (c.get now key).2 := h.get_liveUnchanged
  unfold TimedCache.call
  dsimp only
  cases hfound : (c.get now key).1 with
  | some v =>
    rw [getOrCompute_found hfound]
    exact hget
  | none =>
    rw [getOrCompute_missed hfound]
    exact hget

variable [IsOrderedAddMonoid T]

/-- After a call that sets a key, the cache holds the live keys and no others. -/
theorem Follows.call_keys (hafter : ∀ s d : T, Timeline.after? s d = some (s + d)) (hpos : 0 < ttl)
    {k : Call T K V E} (h : Follows ttl c past (k.readings now ++ upcoming))
    (hclock : (k.readings now ++ upcoming).Pairwise (· ≤ ·)) {s : T} {key : K} {v : V}
    (hrecord : record ttl past now k = [.set s key v]) (other : K) :
    other ∈ (c.call now k).2.keys ↔ (live ttl (.set s key v :: past) s other).isSome = true := by
  cases k with
  | set key' v' =>
    cases hrecord
    have hrest := (List.pairwise_cons.mp hclock).1
    exact h.set_keys hafter hpos (List.forall_mem_cons.mpr ⟨le_refl _, hrest⟩)
      List.mem_cons_self other
  | getOrCompute key' computed later =>
    have hget : (c.get now key').1 = live ttl past now key' := h.get List.mem_cons_self
    obtain ⟨hnow, hlater⟩ := List.pairwise_cons.mp hclock
    have hrest := (List.pairwise_cons.mp hlater).1
    unfold record at hrecord
    unfold TimedCache.call
    dsimp only at hrecord ⊢
    cases hlive : live ttl past now key' with
    | some w =>
      rw [hlive] at hrecord
      cases hrecord
    | none =>
      rw [hlive] at hrecord
      rw [getOrCompute_missed (hget.trans hlive)]
      cases computed with
      | error e => cases hrecord
      | ok w =>
        cases hrecord
        have hlooked : Follows ttl (c.get now key).2 past (s :: upcoming) :=
          (h.mono fun t ht => List.mem_cons_of_mem _ ht).after_get hnow
        exact hlooked.set_keys hafter hpos (List.forall_mem_cons.mpr ⟨le_refl _, hrest⟩)
          List.mem_cons_self other
  | get key' => cases hrecord
  | drop key' => cases hrecord
  | clear => cases hrecord
  | size => cases hrecord
  | contains key' => cases hrecord

/-- Every run from an empty cache answers, and computes or not, as its history calls for. A failed
computation leaves all live entries as they were, and after every setting of a key the cache holds
the live keys and no others. -/
theorem answers_by_history (hafter : ∀ s d : T, Timeline.after? s d = some (s + d)) (hpos : 0 < ttl)
    {calls : List (T × Call T K V E)} (hclock : (readings calls).Pairwise (· ≤ ·)) :
    ∃ c : TimedCache T K V, TimedCache.of ttl = .ok c ∧
      (c.run calls).1 = expectedAnswers ttl [] calls ∧
      ∀ earlier now k later, calls = earlier ++ (now, k) :: later →
        (∀ key e ready, k = .getOrCompute key (.error e) ready →
          LiveUnchanged now (c.run earlier).2 ((c.run earlier).2.call now k).2) ∧
        ∀ s key v, record ttl (history ttl [] earlier) now k = [.set s key v] → ∀ other,
          other ∈ ((c.run earlier).2.call now k).2.keys ↔
            (live ttl (.set s key v :: history ttl [] earlier) s other).isSome = true := by
  refine ⟨empty ttl, if_neg (not_le.mpr hpos), ?_, ?_⟩
  · have hclock' : (readings calls ++ []).Pairwise (· ≤ ·) := by rwa [List.append_nil]
    exact ((follows_empty ttl _).run hafter hclock').1
  · rintro earlier now k later rfl
    rw [readings_append, readings_cons] at hclock
    obtain ⟨-, hbefore⟩ := (follows_empty ttl _).run hafter hclock
    have hclock' := (List.pairwise_append.mp hclock).2.1
    refine ⟨?_, ?_⟩
    · rintro key e ready rfl
      exact hbefore.call_failed
    · intro s key v hrecord other
      exact hbefore.call_keys hafter hpos hclock' hrecord other

end

/-- A value that expires between two calls, a computation that fails and one that takes its time. -/
theorem answers_by_history_expiring :
    let calls : List (Int × Call Int String Nat Unit) :=
      [(0, .set "a" 1), (9, .get "a"), (10, .contains "a"), (10, .getOrCompute "a" (.error ()) 12),
        (12, .getOrCompute "a" (.ok 2) 15), (24, .getOrCompute "a" (.ok 3) 24), (24, .size),
        (24, .drop "a"), (25, .size)]
    (0 : Int) < 10 ∧ (readings calls).Pairwise (· ≤ ·) ∧
      ∃ c : TimedCache Int String Nat, TimedCache.of 10 = .ok c ∧ (c.run calls).1 =
        [.stored true, .found (some 1), .held false, .computed (.error (.failed ())) true,
          .computed (.ok (some 2)) true, .computed (.ok (some 2)) false, .number 1, .done,
          .number 0] := by
  intro calls
  have hpos : (0 : Int) < 10 := by decide
  have hclock : (readings calls).Pairwise (· ≤ ·) := by decide
  obtain ⟨c, hof, hrun, -⟩ := answers_by_history (fun _ _ => rfl) hpos hclock
  exact ⟨hpos, hclock, c, hof, hrun.trans rfl⟩

end AuditReport.TimedCache
