import AuditReport.Log.Entry
import AuditReport.Log.Like

/-! The table of the request log, and sessions on it. A session in which an entry was refused takes
and answers nothing more. -/

namespace AuditReport

/-- The log: its entries in the order in which they were made. -/
structure LogTable where
  entries : List LogEntry
  deriving Repr

/-- Which entries are asked for. -/
structure LogFilter where
  /-- How far back from now. -/
  hours : Int
  statusMin : Option Int
  statusMax : Option Int
  /-- How the path has to begin, as a pattern; the empty one lets every path pass. -/
  pathPrefix : Option String
  deriving DecidableEq, Repr

namespace LogTable

open Calendar (Moment)

/-- The log without entries. -/
def empty : LogTable := ⟨[]⟩

/-- The entry with a number. -/
def entry? (t : LogTable) (id : Int) : Option LogEntry := t.entries.find? (·.id = id)

/-- The next free number: one more than the greatest that is taken. -/
def nextId (t : LogTable) : Int :=
  match t.entries.map LogEntry.id with
  | [] => 1
  | n :: rest => rest.foldl max n + 1

/-- Adds the entry that a draft makes. The table refuses a draft that makes none, or one with a
number that is taken. -/
def insert? (t : LogTable) (d : LogDraft) (now : Moment) : Option LogTable :=
  let id := d.id.getD t.nextId
  if (t.entry? id).isSome then none
  else (d.entry? id now).map fun e => ⟨t.entries ++ [e]⟩

/-- Why there is no answer. -/
inductive Fault where
  /-- A value that cannot be handed to the table. -/
  | unfit (f : LogDraft.Unfit)
  /-- A pattern that the table does not compare with anything. -/
  | overlongPattern
  deriving DecidableEq, Repr

/-- What a question to the table yields. -/
abbrev Answer (α : Type) := Except Fault α

/-- Fails with what is wrong with a value. -/
def check (fault : Option LogDraft.Unfit) : Answer Unit :=
  match fault with
  | some f => .error (.unfit f)
  | none => .ok ()

/-- The start of the time that a filter looks back to, which has to be in the years 1 to 9999. -/
def windowStart (f : LogFilter) (now : Moment) : Answer Moment :=
  match now.shift? (-(f.hours * Calendar.hour)) with
  | some start => .ok start
  | none => .error (.unfit .outOfRange)

/-- The path of an entry begins as a filter asks. -/
def hasPrefix (f : LogFilter) (e : LogEntry) : Bool :=
  f.pathPrefix.all fun p => p.isEmpty || Log.likePrefix p e.path

/-- An entry is as a filter asks, its path left aside; `start` is the start of the filter's time. -/
def inBounds (f : LogFilter) (start : Moment) (e : LogEntry) : Bool :=
  start.reading ≤ e.timestamp.reading && f.statusMin.all (· ≤ e.status) &&
    f.statusMax.all (e.status ≤ ·)

/-- The values of a filter can be handed to the table. -/
def checkFilter (f : LogFilter) : Answer Unit := do
  check (LogDraft.numberFault? f.statusMin)
  check (LogDraft.numberFault? f.statusMax)
  check (LogDraft.textFault? f.pathPrefix)

/-- All entries that a filter lets pass; `start` is the start of its time. A pattern that is too
long fails as soon as it is compared. -/
def matching (t : LogTable) (f : LogFilter) (start : Moment) : Answer (List LogEntry) :=
  let candidates := t.entries.filter (inBounds f start)
  if f.pathPrefix.any Log.isOverlong && !candidates.isEmpty then .error .overlongPattern
  else .ok (candidates.filter (hasPrefix f))

/-- The order of answers: the latest first, of entries of the same time the last made first. -/
def newer (a b : LogEntry) : Bool :=
  b.timestamp.reading < a.timestamp.reading ||
    (a.timestamp.reading == b.timestamp.reading && b.id ≤ a.id)

/-- A stretch of a list. A negative offset stands for none, a negative limit for no limit. -/
def window {α : Type} (limit offset : Int) (xs : List α) : List α :=
  let rest := xs.drop offset.toNat
  if limit < 0 then rest else rest.take limit.toNat

/-- At most `limit` of the entries that a filter lets pass, the latest first, from the one at
`offset` on. -/
def page (t : LogTable) (f : LogFilter) (limit offset : Int) (now : Moment) :
    Answer (List LogEntry) := do
  let start ← windowStart f now
  checkFilter f
  check (LogDraft.numberFault? (some limit))
  check (LogDraft.numberFault? (some offset))
  return window limit offset ((← t.matching f start).mergeSort newer)

/-- The number of entries that a filter lets pass. -/
def count (t : LogTable) (f : LogFilter) (now : Moment) : Answer Nat := do
  let start ← windowStart f now
  checkFilter f
  return (← t.matching f start).length

/-- The entry with a number, if there is one. -/
def find (t : LogTable) (id : Int) : Answer (Option LogEntry) := do
  check (LogDraft.numberFault? (some id))
  return t.entry? id

end LogTable

/-- Why a session gives no answer. -/
inductive LogFailure where
  | fault (f : LogTable.Fault)
  /-- An entry was refused earlier in the same session. -/
  | sessionBroken
  deriving DecidableEq, Repr

/-- A session on the log. -/
structure LogSession where
  /-- An entry was refused. -/
  broken : Bool
  deriving DecidableEq, Repr

namespace LogSession

/-- A new session. -/
def fresh : LogSession := ⟨false⟩

/-- Logs a request. A draft that the table refuses breaks the session; a broken session logs
nothing. Of all that, only a value that cannot be handed to the table is told. -/
def record (s : LogSession) (t : LogTable) (d : LogDraft) (now : Calendar.Moment) :
    Except LogDraft.Unfit Unit × LogSession × LogTable :=
  if s.broken then (.ok (), s, t)
  else match d.fault?, t.insert? d now with
    | some f, _ => (.error f, ⟨true⟩, t)
    | none, some t => (.ok (), s, t)
    | none, none => (.ok (), ⟨true⟩, t)

/-- What the table answers in a session. -/
def ask {α : Type} (s : LogSession) (answer : LogTable.Answer α) : Except LogFailure α :=
  if s.broken then .error .sessionBroken else answer.mapError .fault

/-- What the table answers in a session to a question with a filter. The start of the filter's time
is found before the session is used. -/
def askWith {α : Type} (s : LogSession) (f : LogFilter) (now : Calendar.Moment)
    (answer : LogTable.Answer α) : Except LogFailure α := do
  let _ ← (LogTable.windowStart f now).mapError LogFailure.fault
  s.ask answer

end LogSession

/-- Logs a request in a session of its own. -/
def LogTable.persist (t : LogTable) (d : LogDraft) (now : Calendar.Moment) :
    Except LogDraft.Unfit Unit × LogTable :=
  let (told, _, t) := LogSession.fresh.record t d now
  (told, t)

end AuditReport
