import AuditReport.Chunks
import AuditReport.Value.Order

/-! Mapping a function that may fail over the distinct items of a list with a bounded number of
workers. A few items are worked off in place; more are split into chunks, one task a chunk. Items
with a recoverable failure are left out; any other failure is the failure of the whole. -/

namespace AuditReport

/-- How work is shared out. -/
structure Workers where
  /-- Tasks that run at the same time, at least one. -/
  count : Nat
  /-- Items per chunk; nothing or zero stands for an even share. -/
  chunkSize : Option Int
  deriving Repr

/-- Why work was not done. -/
inductive WorkError (E : Type) where
  /-- A negative chunk size leaves nothing to hand to any worker. -/
  | noWorkers
  | failed (e : E)
  deriving Repr

namespace Workers

/-- Up to this many items are worked off in place. -/
def inlineLimit : Nat := 8

/-- Workers for a requested count on a machine with some processors: no more than processors, and
as many as processors if nothing positive is asked for. -/
def ofRequest (requested : Option Int) (processors : Nat) (chunkSize : Option Int) : Workers :=
  let processors := max 1 processors
  match requested with
  | some n => if n ≤ 0 then ⟨processors, chunkSize⟩ else ⟨max 1 (min n.toNat processors), chunkSize⟩
  | none => ⟨processors, chunkSize⟩

/-- The chunks of a list; none for a negative size. A size of zero is refused. -/
def chunks? {α : Type} (size : Int) (xs : List α) : Option (List (List α)) :=
  if size = 0 then none
  else if size < 0 then some []
  else some (chunksOf size.toNat xs)

/-- An even share of `n` items for each worker, at least one. -/
def evenShare (n workers : Nat) : Nat := max 1 ((n + workers - 1) / workers)

/-- What one task did: the items it called the function on, and the values or the failure. -/
structure Task (K R E : Type) where
  calls : List K
  result : Except E (List (K × R))

variable {K R E : Type}

/-- Works off one chunk, item by item. A failure that is not recoverable ends it. -/
def runChunk (f : K → Except E R) (recoverable : E → Bool) : List K → Task K R E
  | [] => ⟨[], .ok []⟩
  | x :: rest =>
    match f x with
    | .ok r =>
      let t := runChunk f recoverable rest
      ⟨x :: t.calls, t.result.map ((x, r) :: ·)⟩
    | .error e =>
      if recoverable e then
        let t := runChunk f recoverable rest
        ⟨x :: t.calls, t.result⟩
      else ⟨[x], .error e⟩

/-- The chunks that some distinct items are split into. -/
def split (w : Workers) (items : List K) : Except (WorkError E) (List (List K)) :=
  if items.length ≤ inlineLimit ∨ w.count = 1 then .ok [items]
  else
    let size := match w.chunkSize with
      | none | some 0 => (evenShare items.length w.count : Int)
      | some n => n
    match chunks? size items with
    | some (c :: rest) => .ok (c :: rest)
    | _ => .error .noWorkers

/-- The results of finished tasks, in the order in which they finished. -/
def collect : List (Task K R E) → Except E (List (K × R))
  | [] => .ok []
  | t :: rest => do
    let found ← t.result
    return found ++ (← collect rest)

/-- What came of the work: all calls, and the values or the failure. -/
structure Outcome (K R E : Type) where
  calls : List K
  result : Except (WorkError E) (List (K × R))

/-- Maps a function over the distinct items of a list. -/
def map [BEq K] (w : Workers) (f : K → Except E R) (recoverable : E → Bool) (items : List K) :
    Outcome K R E :=
  match distinctBy (fun a b => a == b) items with
  | [] => ⟨[], .ok []⟩
  | first :: rest =>
    match w.split (first :: rest) with
    | .error e => ⟨[], .error e⟩
    | .ok chunks =>
      let tasks := chunks.map (runChunk f recoverable)
      ⟨tasks.flatMap Task.calls, (collect tasks).mapError .failed⟩

end Workers

end AuditReport
