import AuditReport.Proofs.CacheEntries
import Mathlib.Logic.Function.Basic

/-! Calls of `getOrCompute` that overlap. Looking up and setting are atomic, and the computation
between them is not, so an invalidation can fall into it. What was computed by then is stored all
the same, and later calls return it. Nothing else can bring back what an invalidation dropped. -/

namespace AuditReport.TimedCache

/-- A call of `getOrCompute`: the key it is for, and a number that tells it from other calls. -/
structure Caller (K : Type) where
  key : K
  number : Nat
  deriving DecidableEq, Repr

/-- The atomic steps of all calls and of the invalidations. -/
inductive Atomic (T K V : Type) where
  | look (call : Caller K) (now : T)
  /-- The computation begins. -/
  | compute (call : Caller K)
  /-- The computation is over, and its value is set. -/
  | store (call : Caller K) (now : T) (value : Option V)
  | fail (call : Caller K)
  | invalidate

/-- How far a call has come. -/
inductive Phase (K V : Type) where
  | idle
  | missed
  | computing
  /-- It has returned a value that the call `source` computed. -/
  | returned (source : Caller K) (value : Option V)
  | raised

def Phase.rank {K V : Type} : Phase K V → Nat
  | .idle => 0
  | .missed => 1
  | .computing => 2
  | .returned _ _ | .raised => 3

/-- The cache, with each value under the call that computed it, and the phases of all calls. -/
structure Shared (T K V : Type) where
  cache : TimedCache T K (Caller K × V)
  phase : Caller K → Phase K V

namespace Shared

variable {T K V E : Type}

/-- Nothing is cached, and no call has begun. -/
def start (ttl : T) : Shared T K V := ⟨.empty ttl, fun _ => .idle⟩

/-- Whether it is the turn of a step. -/
def Ready (s : Shared T K V) : Atomic T K V → Prop
  | .look call _ => s.phase call = .idle
  | .compute call => s.phase call = .missed
  | .store call _ _ | .fail call => s.phase call = .computing
  | .invalidate => True

/-- The call that a step is of, and how far it has come before. -/
def turn : Atomic T K V → Option (Caller K × Nat)
  | .look call _ => some (call, 0)
  | .compute call => some (call, 1)
  | .store call _ _ | .fail call => some (call, 2)
  | .invalidate => none

theorem Ready.rank_eq {s : Shared T K V} {a : Atomic T K V} {c : Caller K} {n : Nat} (h : s.Ready a)
    (hturn : turn a = some (c, n)) : (s.phase c).rank = n := by
  cases a with
  | look | compute | store | fail =>
    cases hturn
    exact congrArg Phase.rank h
  | invalidate => cases hturn

section

variable [DecidableEq K] [LE T] [DecidableLE T] [Timeline T]

/-- What a step makes of the cache. -/
def cacheAfter (c : TimedCache T K (Caller K × V)) : Atomic T K V → TimedCache T K (Caller K × V)
  | .look call now => (c.get now call.key).2
  | .compute _ | .fail _ => c
  | .store call now value => (c.set now call.key (value.map (call, ·))).2
  | .invalidate => c.clear

/-- The call that a step is of, and the phase that it comes to. -/
def moves (c : TimedCache T K (Caller K × V)) : Atomic T K V → Option (Caller K × Phase K V)
  | .look call now =>
    match (c.get now call.key).1 with
    | some (source, v) => some (call, .returned source (some v))
    | none => some (call, .missed)
  | .compute call => some (call, .computing)
  | .store call now value =>
    if (c.set now call.key (value.map (call, ·))).1 then some (call, .returned call value)
    else some (call, .raised)
  | .fail call => some (call, .raised)
  | .invalidate => none

def step (s : Shared T K V) (a : Atomic T K V) : Shared T K V where
  cache := cacheAfter s.cache a
  phase := match moves s.cache a with
    | some (call, p) => Function.update s.phase call p
    | none => s.phase

def run (s : Shared T K V) (as : List (Atomic T K V)) : Shared T K V := as.foldl step s

/-- Whether each of some steps is made at its turn. -/
def InTurn (s : Shared T K V) : List (Atomic T K V) → Prop
  | [] => True
  | a :: rest => s.Ready a ∧ (s.step a).InTurn rest

variable {s : Shared T K V} {a : Atomic T K V} {as bs : List (Atomic T K V)} {c : Caller K} {n : Nat}

theorem run_append : s.run (as ++ bs) = (s.run as).run bs := List.foldl_append

theorem inTurn_append : s.InTurn (as ++ bs) ↔ s.InTurn as ∧ (s.run as).InTurn bs := by
  induction as generalizing s with
  | nil => exact ⟨fun h => ⟨trivial, h⟩, And.right⟩
  | cons a as ih =>
    rw [List.cons_append, InTurn, InTurn, ih, and_assoc]
    rfl

/-! ## A call alone -/

/-- The steps of a call that nothing disturbs. -/
def alone (s : Shared T K V) (call : Caller K) (now later : T) (computed : Except E (Option V)) :
    List (Atomic T K V) :=
  match (s.cache.get now call.key).1, computed with
  | some _, _ => [.look call now]
  | none, .ok value => [.look call now, .compute call, .store call later value]
  | none, .error _ => [.look call now, .compute call, .fail call]

/-- The phase in which a call ends with what it returns. -/
def outcome (call : Caller K) : Except (ComputeError E) (Option (Caller K × V)) → Phase K V
  | .ok (some (source, v)) => .returned source (some v)
  | .ok none => .returned call none
  | .error _ => .raised

theorem phase_look_missed {now : T} (h : (s.cache.get now c.key).1 = none) :
    (s.step (.look c now)).phase c = .missed := by simp [step, moves, h]

theorem phase_look_found {now : T} {source : Caller K} {v : V}
    (h : (s.cache.get now c.key).1 = some (source, v)) :
    (s.step (.look c now)).phase c = .returned source (some v) := by simp [step, moves, h]

theorem phase_store {now : T} {value : Option V} : (s.step (.store c now value)).phase c =
    if (s.cache.set now c.key (value.map (c, ·))).1 = true then .returned c value else .raised := by
  cases hset : (s.cache.set now c.key (value.map (c, ·))).1 <;> simp [step, moves, hset]

/-- Without others, the steps of a call are `getOrCompute`. -/
theorem run_alone (hidle : s.phase c = .idle) (now later : T) (computed : Except E (Option V)) :
    s.InTurn (s.alone c now later computed) ∧
      (s.run (s.alone c now later computed)).cache = (s.cache.getOrCompute now later c.key
        fun _ => computed.map (Option.map (c, ·))).2 ∧
      (s.run (s.alone c now later computed)).phase c = outcome c (s.cache.getOrCompute now later c.key
        fun _ => computed.map (Option.map (c, ·))).1.1 := by
  unfold alone
  cases hfound : (s.cache.get now c.key).1 with
  | some w =>
    rw [getOrCompute_found hfound]
    exact ⟨⟨hidle, trivial⟩, rfl, phase_look_found hfound⟩
  | none =>
    rw [getOrCompute_missed hfound]
    have hlooked := phase_look_missed hfound
    have hcomputing : ((s.step (.look c now)).step (.compute c)).phase c = .computing := by
      simp [step, moves]
    cases computed with
    | ok value =>
      refine ⟨⟨hidle, hlooked, hcomputing, trivial⟩, rfl, phase_store.trans ?_⟩
      show (if ((s.cache.get now c.key).2.set later c.key (value.map (c, ·))).1 = true then _ else _) =
        outcome c (if ((s.cache.get now c.key).2.set later c.key (value.map (c, ·))).1 = true then _
          else _)
      split
      · cases value <;> rfl
      · rfl
    | error e =>
      refine ⟨⟨hidle, hlooked, hcomputing, trivial⟩, rfl, ?_⟩
      exact Function.update_self _ _ _

/-! ## Turns -/

/-- Every step takes its call further. -/
theorem moves_of_turn (cache : TimedCache T K (Caller K × V)) (hturn : turn a = some (c, n)) :
    ∃ p, moves cache a = some (c, p) ∧ n < p.rank := by
  cases a with
  | look call now =>
    cases hturn
    unfold moves
    dsimp only
    split
    · exact ⟨_, rfl, by simp [Phase.rank]⟩
    · exact ⟨_, rfl, by simp [Phase.rank]⟩
  | compute call =>
    cases hturn
    exact ⟨_, rfl, by simp [Phase.rank]⟩
  | store call now value =>
    cases hturn
    unfold moves
    dsimp only
    split
    · exact ⟨_, rfl, by simp [Phase.rank]⟩
    · exact ⟨_, rfl, by simp [Phase.rank]⟩
  | fail call =>
    cases hturn
    exact ⟨_, rfl, by simp [Phase.rank]⟩
  | invalidate => cases hturn

theorem moves_of_noTurn (cache : TimedCache T K (Caller K × V)) (hturn : turn a = none) :
    moves cache a = none := by
  cases a with
  | invalidate => rfl
  | look | compute | store | fail => cases hturn

theorem step_own (hturn : turn a = some (c, n)) : n < ((s.step a).phase c).rank := by
  obtain ⟨p, hmoves, hrank⟩ := moves_of_turn s.cache hturn
  simp only [step, hmoves, Function.update_self, hrank]

/-- A call that is not at the turn of a step stays as it is. -/
theorem step_other (h : s.Ready a) (hother : turn a ≠ some (c, (s.phase c).rank)) :
    (s.step a).phase c = s.phase c := by
  cases hturn : turn a with
  | none => simp only [step, moves_of_noTurn s.cache hturn]
  | some d =>
    obtain ⟨d, n⟩ := d
    obtain ⟨p, hmoves, -⟩ := moves_of_turn s.cache hturn
    have hne : c ≠ d := by
      rintro rfl
      rw [h.rank_eq hturn] at hother
      exact hother hturn
    simp only [step, hmoves, Function.update_of_ne hne]

theorem rank_le_step (h : s.Ready a) (c : Caller K) :
    (s.phase c).rank ≤ ((s.step a).phase c).rank := by
  by_cases hturn : turn a = some (c, (s.phase c).rank)
  · exact Nat.le_of_lt (step_own hturn)
  · exact Nat.le_of_eq (congrArg Phase.rank (step_other h hturn).symm)

theorem rank_le_run (h : s.InTurn as) (c : Caller K) :
    (s.phase c).rank ≤ ((s.run as).phase c).rank := by
  induction as generalizing s with
  | nil => exact Nat.le_refl _
  | cons a as ih => exact Nat.le_trans (rank_le_step h.1 c) (ih h.2)

/-- A run with a step of a call takes the call from before to beyond the turn of the step. -/
theorem rank_of_mem (h : s.InTurn as) (ha : a ∈ as) (hturn : turn a = some (c, n)) :
    (s.phase c).rank ≤ n ∧ n < ((s.run as).phase c).rank := by
  obtain ⟨before, after, rfl⟩ := List.append_of_mem ha
  obtain ⟨hbefore, hready, hafter⟩ := inTurn_append.mp h
  rw [run_append]
  -- Calls only go on, so none is ahead of its turn before the step or falls behind after it.
  constructor
  · rw [← hready.rank_eq hturn]
    exact rank_le_run hbefore c
  · exact Nat.lt_of_lt_of_le (step_own hturn) (rank_le_run hafter c)

/-- A call that is over stays as it is. -/
theorem phase_run (h : s.InTurn as) (hover : (s.phase c).rank = 3) :
    (s.run as).phase c = s.phase c := by
  induction as generalizing s with
  | nil => rfl
  | cons a as ih =>
    have hstep : (s.step a).phase c = s.phase c := by
      refine step_other h.1 ?_
      rw [hover]
      cases a <;> simp [turn]
    rw [← hstep]
    exact ih h.2 (by rw [hstep, hover])

/-! ## Values and where they come from -/

/-- From its second step on, a call returns nothing but what it computes itself. -/
theorem moves_own {cache : TimedCache T K (Caller K × V)} {source : Caller K} {v : Option V}
    (hturn : turn a = some (c, n)) (hn : n ≠ 0)
    (hmoves : moves cache a = some (c, .returned source v)) : source = c := by
  cases a with
  | look =>
    cases hturn
    exact absurd rfl hn
  | store call now value =>
    unfold moves at hmoves
    dsimp only at hmoves
    split at hmoves
    · cases hmoves
      rfl
    · cases hmoves
  | compute | fail | invalidate => cases hmoves

/-- How a call that has looked up in vain goes on. -/
def OwnOnly (c : Caller K) (p : Phase K V) : Prop :=
  p ≠ .idle ∧ ∀ source v, p = .returned source v → source = c

theorem OwnOnly.step (h : OwnOnly c (s.phase c)) (hready : s.Ready a) :
    OwnOnly c ((s.step a).phase c) := by
  have hidle : 1 ≤ (s.phase c).rank := by
    cases hphase : s.phase c with
    | idle => exact absurd hphase h.1
    | missed | computing | returned | raised => simp [Phase.rank]
  have hrank := rank_le_step hready c
  by_cases hturn : turn a = some (c, (s.phase c).rank)
  · refine ⟨fun he => ?_, fun source v he => ?_⟩
    · rw [he] at hrank
      exact absurd (Nat.le_trans hidle hrank) (by simp [Phase.rank])
    · obtain ⟨p, hmoves, -⟩ := moves_of_turn s.cache hturn
      have hp : p = .returned source v := by
        rw [← he]
        simp only [Shared.step, hmoves, Function.update_self]
      exact moves_own hturn (by omega) (hp ▸ hmoves)
  · rwa [step_other hready hturn]

theorem OwnOnly.run (h : OwnOnly c (s.phase c)) (hinTurn : s.InTurn as) :
    OwnOnly c ((s.run as).phase c) := by
  induction as generalizing s with
  | nil => exact h
  | cons a as ih => exact ih (h.step hinTurn.1) hinTurn.2

/-- A call returns what it has found, or else what it computes itself. -/
theorem found_or_own {call source : Caller K} {now : T} {value : Option V}
    (hrest : (s.step (.look call now)).InTurn as)
    (hreturned : ((s.step (.look call now)).run as).phase call = .returned source value) :
    source = call ∨ ∃ v, value = some v ∧ (s.cache.get now call.key).1 = some (source, v) := by
  cases hfound : (s.cache.get now call.key).1 with
  | none =>
    have hmissed := phase_look_missed hfound
    have hown : OwnOnly call ((s.step (.look call now)).phase call) := by
      rw [hmissed]
      exact ⟨nofun, nofun⟩
    exact .inl ((hown.run hrest).2 source value hreturned)
  | some w =>
    have hhit := phase_look_found hfound
    rw [phase_run hrest (by rw [hhit]; rfl), hhit] at hreturned
    cases hreturned
    exact .inr ⟨_, rfl, rfl⟩

/-- A value in the cache is stored in one of the steps, under the key of the call that computed it. -/
def StoredIn (since : List (Atomic T K V)) (key : K) : Option (Caller K × V) → Prop
  | some (source, v) => source.key = key ∧ ∃ now, .store source now (some v) ∈ since
  | none => True

theorem StoredIn.step {since : List (Atomic T K V)} (h : All (StoredIn since) s.cache)
    (ha : a ∈ since) : All (StoredIn since) (s.step a).cache := by
  cases a with
  | look call now => exact h.get.2
  | store call now value =>
    refine h.set ?_
    cases value with
    | none => trivial
    | some v => exact ⟨rfl, now, ha⟩
  | compute | fail => exact h
  | invalidate => exact all_clear _

theorem StoredIn.run {since : List (Atomic T K V)} (h : All (StoredIn since) s.cache)
    (has : as ⊆ since) : All (StoredIn since) (s.run as).cache := by
  induction as generalizing s with
  | nil => exact h
  | cons a as ih =>
    obtain ⟨ha, has⟩ := List.cons_subset.mp has
    exact ih (StoredIn.step h ha) has

/-! ## Invalidations -/

/-- No call that looks up after an invalidation returns what began to be computed before it. -/
def NeverStale (s : Shared T K V) : Prop :=
  ∀ (before between rest : List (Atomic T K V)) (call source : Caller K) (now : T) (value : Option V),
    s.InTurn (before ++ .invalidate :: (between ++ .look call now :: rest)) →
    (s.run (before ++ .invalidate :: (between ++ .look call now :: rest))).phase call =
      .returned source value → .compute source ∉ before

/-- A computation begins, the cache is cleared, and only then the value is stored. -/
theorem stale_after_invalidation : ¬(start 300 : Shared Int String String).NeverStale := by
  intro h
  let slow : Caller String := ⟨"passwords", 0⟩
  let next : Caller String := ⟨"passwords", 1⟩
  refine h [.look slow 0, .compute slow] [.store slow 2 (some "old")] [] next slow 3 (some "old")
    ⟨rfl, rfl, trivial, rfl, rfl, trivial⟩ rfl ?_
  exact List.mem_cons_of_mem _ List.mem_cons_self

/-- A call that looks up after an invalidation returns what a call computes that began to compute
before it only in one case: that computation was under way at the invalidation, and stored its value
between the two, under the same key. -/
theorem stale_only_if_under_way {before between rest : List (Atomic T K V)} {call source : Caller K}
    {now : T} {value : Option V}
    (h : s.InTurn (before ++ .invalidate :: (between ++ .look call now :: rest)))
    (hreturned : (s.run (before ++ .invalidate :: (between ++ .look call now :: rest))).phase call =
      .returned source value)
    (hbegan : .compute source ∈ before) :
    source.key = call.key ∧ (∀ t w, .store source t w ∉ before) ∧ .fail source ∉ before ∧
      ∃ t, .store source t value ∈ between := by
  obtain ⟨hbefore, -, h⟩ := inTurn_append.mp h
  obtain ⟨hbetween, hidle, hrest⟩ := inTurn_append.mp h
  have hsplit : s.run (before ++ .invalidate :: (between ++ .look call now :: rest)) =
      ((((s.run before).step .invalidate).run between).step (.look call now)).run rest := by
    rw [run_append]
    exact run_append
  rw [hsplit] at hreturned
  have hcomputed := (rank_of_mem hbefore hbegan rfl).2
  have hstored : All (StoredIn between) (((s.run before).step .invalidate).run between).cache :=
    StoredIn.run (all_clear _) (List.Subset.refl _)
  rcases found_or_own hrest hreturned with rfl | ⟨v, rfl, hfound⟩
  · -- The call had not begun when it looked up, so it cannot have computed before.
    have hrank := rank_le_run hbetween source
    rw [hidle] at hrank
    exact absurd (Nat.lt_of_lt_of_le hcomputed hrank) (Nat.not_lt_zero _)
  · -- What was found was stored since, so its call was not over at the invalidation.
    obtain ⟨hkey, t, hmem⟩ := hstored.get.1 (source, v) hfound
    have hstore := (rank_of_mem hbetween hmem rfl).1
    refine ⟨hkey, ?_, ?_, t, hmem⟩
    · intro t' w hearlier
      have hover := (rank_of_mem hbefore hearlier rfl).2
      exact absurd (Nat.lt_of_lt_of_le hover hstore) (Nat.lt_irrefl _)
    · intro hearlier
      have hover := (rank_of_mem hbefore hearlier rfl).2
      exact absurd (Nat.lt_of_lt_of_le hover hstore) (Nat.lt_irrefl _)

end

/-- A call computes, the cache is invalidated, the call stores what it has, and the next call gets
that. -/
theorem stale_only_if_under_way_late_store :
    let slow : Caller String := ⟨"passwords", 0⟩
    let next : Caller String := ⟨"passwords", 1⟩
    let before : List (Atomic Int String String) := [.look slow 0, .compute slow]
    let between : List (Atomic Int String String) := [.store slow 2 (some "old")]
    let all := before ++ .invalidate :: (between ++ [.look next 3])
    (start 300).InTurn all ∧ ((start 300).run all).phase next = .returned slow (some "old") ∧
      .compute slow ∈ before ∧ (∀ t w, .store slow t w ∉ before) ∧
      ∃ t, .store slow t (some "old") ∈ between := by
  intro slow next before between all
  have hinTurn : (start 300).InTurn all := ⟨rfl, rfl, trivial, rfl, rfl, trivial⟩
  have hreturned : ((start 300).run all).phase next = .returned slow (some "old") := rfl
  have hbegan : .compute slow ∈ before := List.mem_cons_of_mem _ List.mem_cons_self
  obtain ⟨-, hnot, -, hstored⟩ := stale_only_if_under_way hinTurn hreturned hbegan
  exact ⟨hinTurn, hreturned, hbegan, hnot, hstored⟩

end Shared

end AuditReport.TimedCache
