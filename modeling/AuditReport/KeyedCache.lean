import AuditReport.Number.Quantity
import AuditReport.TimedCache
import AuditReport.Value.Key

/-! A cache whose keys and values are dynamic. Nulls are stored as nothing, and a value that makes no
key fails the operation. -/

namespace AuditReport

instance : Timeline Number.Quantity := ⟨Number.Quantity.add?⟩

/-- A cache from scalars to values on a clock of any numbers. -/
abbrev KeyedCache := TimedCache Number.Quantity Key Value

/-- Why an operation on a dynamic cache failed. -/
inductive KeyedCacheError where
  | notAKey
  /-- The computation of a value failed. -/
  | computation
  /-- The time at which a value would expire is out of range. -/
  | outOfRange
  deriving DecidableEq, Repr

namespace KeyedCache

/-- A value as it is stored. -/
def stored : Value → Option Value
  | .null => none
  | v => some v

/-- The value read back. -/
def shown (v : Option Value) : Value := v.getD .null

/-- The answer of an operation and the cache after it. -/
abbrev Step := Except KeyedCacheError Value × KeyedCache

/-- Does something with the key that a value makes. -/
def withKey (c : KeyedCache) (key : Value) (act : Key → Step) : Step :=
  match Key.ofValue? key with
  | some k => act k
  | none => (.error .notAKey, c)

/-- `TimedCache.get`. -/
def get (c : KeyedCache) (now : Number.Quantity) (key : Value) : Step :=
  withKey c key fun k => let (v, c) := TimedCache.get c now k; (.ok (shown v), c)

/-- `TimedCache.set`. The expired entries are dropped, and the time of expiry is found, before the
key is looked at. -/
def set (c : KeyedCache) (now : Number.Quantity) (key value : Value) : Step :=
  let c := c.sweep now
  if (c.expiry? now).isNone then (.error .outOfRange, c)
  else withKey c key fun k => (.ok .null, (TimedCache.set c now k (stored value)).2)

/-- `TimedCache.getOrCompute`; the computation yields `value` or fails, and takes no time. -/
def getOrCompute (c : KeyedCache) (now : Number.Quantity) (key : Value) (value : Option Value) :
    Step × Bool :=
  match Key.ofValue? key with
  | none => ((.error .notAKey, c), false)
  | some k =>
    let compute (_ : Unit) : Except Unit (Option Value) :=
      match value with
      | some v => .ok (stored v)
      | none => .error ()
    match TimedCache.getOrCompute c now now k compute with
    | ((.ok v, computed), c) => ((.ok (shown v), c), computed)
    | ((.error (.failed ()), computed), c) => ((.error .computation, c), computed)
    | ((.error .outOfRange, computed), c) => ((.error .outOfRange, c), computed)

/-- Drops what is held under a key; under null, everything. From an empty cache anything can be
dropped, a key or not. -/
def invalidate (c : KeyedCache) (key : Value) : Step :=
  match key with
  | .null => (.ok .null, c.clear)
  | _ =>
    if c.entries.isEmpty then (.ok .null, c) else withKey c key fun k => (.ok .null, c.erase k)

/-- `TimedCache.contains`. -/
def contains (c : KeyedCache) (now : Number.Quantity) (key : Value) : Step :=
  withKey c key fun k => let (b, c) := TimedCache.contains c now k; (.ok (.bool b), c)

/-- `TimedCache.size`. -/
def size (c : KeyedCache) (now : Number.Quantity) : Step := (.ok (.int (TimedCache.size c now)), c)

end KeyedCache

end AuditReport
