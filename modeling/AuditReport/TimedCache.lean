/-! A cache whose entries expire a fixed time after they were set. It is generic in the kind of
time, so that the same definition serves whole and fractional clocks. A stored nothing takes a place
in the cache but reads as absent. -/

namespace AuditReport

/-- Times that a duration can be added to, unless the sum is out of their range. -/
class Timeline (T : Type) where
  /-- The time that lies `duration` after `now`. -/
  after? (now duration : T) : Option T

instance : Timeline Int := ⟨fun now duration => some (now + duration)⟩

/-- Why a cache cannot be set up. -/
inductive CacheError where
  | ttlNotPositive
  deriving DecidableEq, Repr

/-- The wording of a cache error. -/
def CacheError.message : CacheError → String
  | ttlNotPositive => "ttl must be positive"

/-- What a cache holds under a key. -/
structure CacheEntry (T K V : Type) where
  key : K
  value : Option V
  expires : T
  deriving Repr

/-- A cache with entries that live for `ttl`. -/
structure TimedCache (T K V : Type) where
  ttl : T
  entries : List (CacheEntry T K V)

namespace TimedCache

variable {T K V : Type}

/-- The empty cache. -/
def empty (ttl : T) : TimedCache T K V := ⟨ttl, []⟩

/-- The empty cache, for a positive time to live. -/
def of [LE T] [DecidableLE T] [OfNat T 0] (ttl : T) : Except CacheError (TimedCache T K V) :=
  if ttl ≤ 0 then .error .ttlNotPositive else .ok (empty ttl)

/-- The keys held, expired ones included. -/
def keys (c : TimedCache T K V) : List K := c.entries.map (·.key)

/-- The entry under a key, whether or not it has expired. -/
def entry? [BEq K] (c : TimedCache T K V) (key : K) : Option (CacheEntry T K V) :=
  c.entries.find? (·.key == key)

/-- Drops what is held under a key. -/
def erase [BEq K] (c : TimedCache T K V) (key : K) : TimedCache T K V :=
  { c with entries := c.entries.filter (!·.key == key) }

/-- Drops everything. -/
def clear (c : TimedCache T K V) : TimedCache T K V := { c with entries := [] }

/-- Drops all entries that have expired. -/
def sweep [LE T] [DecidableLE T] (c : TimedCache T K V) (now : T) : TimedCache T K V :=
  { c with entries := c.entries.filter fun e => !decide (e.expires ≤ now) }

/-- The live value under a key. An entry that has expired is dropped. -/
def get [LE T] [DecidableLE T] [BEq K] (c : TimedCache T K V) (now : T) (key : K) :
    Option V × TimedCache T K V :=
  match c.entry? key with
  | none => (none, c)
  | some e => if e.expires ≤ now then (none, c.erase key) else (e.value, c)

/-- Puts an entry in the place of one with the same key, or at the end. -/
def put [BEq K] (e : CacheEntry T K V) : List (CacheEntry T K V) → List (CacheEntry T K V)
  | [] => [e]
  | f :: rest => if f.key == e.key then { e with key := f.key } :: rest else f :: put e rest

/-- When an entry that is set now expires, if that can be told. -/
def expiry? [Timeline T] (c : TimedCache T K V) (now : T) : Option T := Timeline.after? now c.ttl

/-- Drops all expired entries and then sets the value under a key, to live from now on. Nothing is
set if the time of its expiry is out of range, which the answer says. -/
def set [LE T] [DecidableLE T] [Timeline T] [BEq K] (c : TimedCache T K V) (now : T) (key : K)
    (value : Option V) : Bool × TimedCache T K V :=
  let c := c.sweep now
  match c.expiry? now with
  | some expires => (true, { c with entries := put ⟨key, value, expires⟩ c.entries })
  | none => (false, c)

/-- Why no value was computed and set. -/
inductive ComputeError (E : Type) where
  | failed (e : E)
  /-- The time at which the value would expire is out of range. -/
  | outOfRange
  deriving DecidableEq, Repr

/-- The live value under a key, or else the value computed for it, which is set unless the
computation fails. The key is looked up at `now`, and what was computed is set at `later`. The
answer also says whether anything was computed. -/
def getOrCompute {E : Type} [LE T] [DecidableLE T] [Timeline T] [BEq K] (c : TimedCache T K V)
    (now later : T) (key : K) (compute : Unit → Except E (Option V)) :
    (Except (ComputeError E) (Option V) × Bool) × TimedCache T K V :=
  match c.get now key with
  | (some v, c) => ((.ok (some v), false), c)
  | (none, c) =>
    match compute () with
    | .error e => ((.error (.failed e), true), c)
    | .ok v =>
      let (done, c) := c.set later key v
      ((if done then .ok v else .error .outOfRange, true), c)

/-- The number of entries that have not expired. -/
def size [LT T] [DecidableLT T] (c : TimedCache T K V) (now : T) : Nat :=
  (c.entries.filter fun e => decide (now < e.expires)).length

/-- Whether a live value is held under a key. An entry that has expired is dropped. -/
def contains [LE T] [DecidableLE T] [BEq K] (c : TimedCache T K V) (now : T) (key : K) :
    Bool × TimedCache T K V :=
  let (v, c) := c.get now key
  (v.isSome, c)

end TimedCache

end AuditReport
