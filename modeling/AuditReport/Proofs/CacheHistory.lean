import AuditReport.TimedCache
import Mathlib.Algebra.Order.Group.Int
import Mathlib.Data.List.Dedup

/-! A cache that forgets nothing, told by its history: all that was set, dropped and cleared, the
latest first. A key is live with the value that it was last set to, if nothing dropped it since and
it was set less than the time to live ago. -/

namespace AuditReport.TimedCache

variable {T K V E : Type}

/-! ## Calls -/

/-- A call of a cache. What `getOrCompute` computes, if it does, is ready at `later`. -/
inductive Call (T K V E : Type) where
  | get (key : K)
  | set (key : K) (value : V)
  | getOrCompute (key : K) (computed : Except E V) (later : T)
  | drop (key : K)
  | clear
  | size
  | contains (key : K)

/-- What a call returns; of `getOrCompute` also whether it computed. -/
inductive Answer (V E : Type) where
  | done
  | stored (done : Bool)
  | found (value : Option V)
  | computed (result : Except (ComputeError E) (Option V)) (called : Bool)
  | number (n : Nat)
  | held (b : Bool)

/-- What the clock shows during a call that begins at `now`. -/
def Call.readings (now : T) : Call T K V E → List T
  | getOrCompute _ _ later => [now, later]
  | _ => [now]

/-- What the clock shows during a run of calls. -/
def readings (calls : List (T × Call T K V E)) : List T := calls.flatMap fun p => p.2.readings p.1

theorem readings_cons (now : T) (k : Call T K V E) (rest : List (T × Call T K V E)) :
    readings ((now, k) :: rest) = k.readings now ++ readings rest := rfl

theorem readings_append (earlier later : List (T × Call T K V E)) :
    readings (earlier ++ later) = readings earlier ++ readings later := List.flatMap_append

/-! ## Histories -/

/-- What a history keeps of a call. -/
inductive Mark (T K V : Type) where
  | set (time : T) (key : K) (value : V)
  | dropped (key : K)
  | cleared
  deriving Repr

/-- Whether a mark decides what is under a key. -/
def Mark.Touches (key : K) : Mark T K V → Prop
  | set _ k _ => k = key
  | dropped k => k = key
  | cleared => True

def Mark.key? : Mark T K V → Option K
  | set _ k _ => some k
  | dropped _ | cleared => none

variable [DecidableEq K]

/-- When a key was last set, and to what, unless it was dropped since. -/
def lastSet (key : K) : List (Mark T K V) → Option (T × V)
  | [] => none
  | .set s k v :: past => if k = key then some (s, v) else lastSet key past
  | .dropped k :: past => if k = key then none else lastSet key past
  | .cleared :: _ => none

theorem lastSet_cons {key : K} {m : Mark T K V} (h : ¬m.Touches key) (past : List (Mark T K V)) :
    lastSet key (m :: past) = lastSet key past := by
  cases m with
  | set => exact if_neg h
  | dropped => exact if_neg h
  | cleared => exact absurd trivial h

theorem lastSet_eq_some_iff {key : K} {past : List (Mark T K V)} {s : T} {v : V} :
    lastSet key past = some (s, v) ↔ ∃ newer older, past = newer ++ .set s key v :: older ∧
      ∀ m ∈ newer, ¬m.Touches key := by
  constructor
  · intro h
    fun_induction lastSet key past with
    | case1 => cases h
    | case2 =>
      cases h
      exact ⟨[], _, rfl, nofun⟩
    | case3 past s' k v' hk ih =>
      obtain ⟨newer, older, rfl, hnewer⟩ := ih h
      exact ⟨_ :: newer, older, rfl, List.forall_mem_cons.mpr ⟨hk, hnewer⟩⟩
    | case4 => cases h
    | case5 past k hk ih =>
      obtain ⟨newer, older, rfl, hnewer⟩ := ih h
      exact ⟨_ :: newer, older, rfl, List.forall_mem_cons.mpr ⟨hk, hnewer⟩⟩
    | case6 => cases h
  · rintro ⟨newer, older, rfl, hnewer⟩
    induction newer with
    | nil => simp [lastSet]
    | cons m newer ih =>
      obtain ⟨hm, hnewer⟩ := List.forall_mem_cons.mp hnewer
      rw [List.cons_append, lastSet_cons hm, ih hnewer]

section

variable [Add T] [LT T] [DecidableLT T] (ttl : T) (past : List (Mark T K V)) (now : T)

/-- The value that is live under a key. -/
def live (key : K) : Option V :=
  match lastSet key past with
  | some (s, v) => if now < s + ttl then some v else none
  | none => none

variable {ttl past now} in
theorem live_eq_some_iff {key : K} {v : V} : live ttl past now key = some v ↔
    ∃ s, lastSet key past = some (s, v) ∧ now < s + ttl := by
  unfold live
  split
  · rename_i s' v' hlast
    rw [hlast]
    split
    · rename_i hlive
      constructor
      · rintro ⟨⟩
        exact ⟨s', rfl, hlive⟩
      · rintro ⟨s, ⟨⟩, -⟩
        rfl
    · rename_i hdead
      constructor
      · nofun
      · rintro ⟨s, ⟨⟩, hlive⟩
        exact absurd hlive hdead
  · rename_i hlast
    simp [hlast]

/-- All keys that are live, each once. -/
def liveKeys : List K := (past.filterMap Mark.key?).dedup.filter fun k => (live ttl past now k).isSome

variable {ttl past now} in
theorem mem_liveKeys {key : K} :
    key ∈ liveKeys ttl past now ↔ (live ttl past now key).isSome = true := by
  unfold liveKeys
  rw [List.mem_filter, List.mem_dedup]
  constructor
  · exact And.right
  · intro h
    refine ⟨?_, h⟩
    obtain ⟨v, hv⟩ := Option.isSome_iff_exists.mp h
    obtain ⟨s, hlast, -⟩ := live_eq_some_iff.mp hv
    obtain ⟨newer, older, rfl, -⟩ := lastSet_eq_some_iff.mp hlast
    exact List.mem_filterMap.mpr ⟨.set s key v, by simp, rfl⟩

theorem nodup_liveKeys : (liveKeys ttl past now).Nodup := (List.nodup_dedup _).filter _

end

/-! ## What the history calls for -/

section

variable [Add T] [LT T] [DecidableLT T] (ttl : T) (past : List (Mark T K V))

/-- The answer that the history calls for. -/
def expected (now : T) : Call T K V E → Answer V E
  | .get key => .found (live ttl past now key)
  | .set _ _ => .stored true
  | .getOrCompute key computed _ =>
    match live ttl past now key, computed with
    | some v, _ => .computed (.ok (some v)) false
    | none, .ok v => .computed (.ok (some v)) true
    | none, .error e => .computed (.error (.failed e)) true
  | .drop _ | .clear => .done
  | .size => .number (liveKeys ttl past now).length
  | .contains key => .held (live ttl past now key).isSome

/-- What a call adds to the history. -/
def record (now : T) : Call T K V E → List (Mark T K V)
  | .set key v => [.set now key v]
  | .getOrCompute key computed later =>
    match live ttl past now key, computed with
    | none, .ok v => [.set later key v]
    | _, _ => []
  | .drop key => [.dropped key]
  | .clear => [.cleared]
  | .get _ | .size | .contains _ => []

/-- The history after a run. -/
def history (past : List (Mark T K V)) : List (T × Call T K V E) → List (Mark T K V)
  | [] => past
  | (now, call) :: rest => history (record ttl past now call ++ past) rest

/-- The answers that the history calls for, one after the other. -/
def expectedAnswers (past : List (Mark T K V)) : List (T × Call T K V E) → List (Answer V E)
  | [] => []
  | (now, call) :: rest =>
    expected ttl past now call :: expectedAnswers (record ttl past now call ++ past) rest

end

end AuditReport.TimedCache
