import AuditReport.Failure
import AuditReport.Report.Row
import AuditReport.TimedCache
import AuditReport.Value.Key
import AuditReport.Vault
import AuditReport.Workers

/-! Turning stored documents into report rows and password lists. Each distinct stored password is
decrypted once per batch and kept for a while; password lists are kept as a whole. What does not
decrypt is left out. -/

namespace AuditReport

/-- A decrypted password and the provider that it is for. -/
structure PasswordItem where
  password : String
  otaType : String
  deriving DecidableEq, Repr

/-- The resolver: how it decrypts, its caches, and the record of what it did. -/
structure Resolver (T : Type) where
  decrypt : String → Except DecryptionError String
  workers : Workers
  values : TimedCache T String String
  lists : TimedCache T String (List PasswordItem)
  /-- Every decryption so far, the latest last. -/
  decryptions : List Value
  /-- How often a password list was loaded. -/
  loads : Nat

namespace Resolver

variable {T : Type} [LE T] [DecidableLE T] [Timeline T]

/-- A resolver with empty caches. -/
def fresh (decrypt : String → Except DecryptionError String) (workers : Workers) (valueTtl listTtl : T) :
    Resolver T :=
  ⟨decrypt, workers, .empty valueTtl, .empty listTtl, [], 0⟩

/-- A step of a resolver, which may fail; what it did by then stays done. Where a step is given the
time `now`, the clock is read once for all that it does with the caches. In the program each look at
an entry and each change of one reads the clock anew. -/
abbrev Action (T : Type) := ExceptT Failure (StateM (Resolver T))

/-- The value that a stored password stands for; only texts stand for any. -/
def decryptKey (r : Resolver T) (k : Key) : Except DecryptionError String :=
  match k.value with
  | .text s => r.decrypt s
  | _ => .error .noSeparator

/-- Splits keys into those whose value is cached, with the value, and the others. Expired entries
that are met on the way are dropped. -/
def lookUp (now : T) : List Key → TimedCache T String String →
    (List (String × String) × List Key) × TimedCache T String String
  | [], c => (([], []), c)
  | k :: rest, c =>
    match k.value with
    | .text s =>
      let (v, c) := c.get now s
      let ((found, missed), c) := lookUp now rest c
      match v with
      | some p => (((s, p) :: found, missed), c)
      | none => ((found, k :: missed), c)
    | _ =>
      let ((found, missed), c) := lookUp now rest c
      ((found, k :: missed), c)

/-- The decrypted texts among some results. -/
def textResults (results : List (Key × String)) : List (String × String) :=
  results.filterMap fun (k, p) =>
    match k.value with
    | .text s => some (s, p)
    | _ => none

/-- Puts decrypted texts into a cache, one after the other, and tells whether all could be put
there. -/
def store (now : T) (found : List (String × String)) (c : TimedCache T String String) :
    Bool × TimedCache T String String :=
  found.foldl (fun (done, c) (s, p) => if done then c.set now s (some p) else (done, c)) (true, c)

/-- Decrypts each distinct key that has no live entry in the cache. The answer pairs stored texts
with what they stand for. -/
def decryptKeys (now : T) (keys : List Key) : Action T (List (String × String)) := do
  let r ← get
  let ((cached, missed), values) := lookUp now (distinctBy (fun a b => a == b) keys) r.values
  set { r with values }
  let o := r.workers.map r.decryptKey (fun _ => true) missed
  modify fun r => { r with decryptions := r.decryptions ++ o.calls.map Key.value }
  match o.result with
  | .error _ => throw (.crashed .noWorkers)
  | .ok results =>
    let found := textResults results
    let r ← get
    let (done, values) := store now found r.values
    set { r with values }
    if done then return cached ++ found else throw (.crashed .outOfRange)

/-- `decryptKeys` for values, all of which must make keys. -/
def decryptValues (now : T) (values : List Value) : Action T (List (String × String)) := do
  match Key.ofValues? values with
  | some keys => decryptKeys now keys
  | none => throw (.crashed .notAKey)

/-- The row of a document, given the decrypted passwords. -/
def toRow (plaintexts : List (String × String)) (d : Document) : Except Failure Row :=
  match Row.passwords d plaintexts with
  | .error () => .error (.crashed .notAKey)
  | .ok password => (Row.read d password).mapError .malformed

/-- A document's fields. -/
def document : Value → Except Failure Document
  | .object d => .ok d
  | _ => .error (.crashed .notADocument)

/-- The rows of some documents, in order. Their passwords are decrypted as one batch. -/
def resolveRows (now : T) (docs : List Value) : Action T (List Row) := do
  let ds ← ofExcept (docs.mapM document)
  let plaintexts ← decryptValues now (ds.flatMap fun d => (Row.ciphertexts d).map Value.text)
  ofExcept (ds.mapM (toRow plaintexts))

/-! ## Password lists -/

/-- The key under which the list of all passwords is kept. -/
def allPasswords : String := "ota-passwords"

/-- The stored passwords of some items that are worth decrypting. -/
def storedPasswords (items : List Value) : Except Failure (List Key) := do
  let found ← items.mapM fun item => do
    let d ← document item
    let v := Document.get d "password"
    if v.isEmpty then return none
    match Key.ofValue? v with
    | some k => return some k
    | none => throw (.crashed .notAKey)
  return found.filterMap id

/-- The password item of a stored item; an item whose password does not decrypt makes none. -/
def toItem (plaintexts : List (String × String)) (item : Value) :
    Except Failure (Option PasswordItem) :=
  match Row.plaintext plaintexts (item.fields.get "password") with
  | .error () => .error (.crashed .notAKey)
  | .ok none => .ok none
  | .ok (some password) =>
    match item.fields.get? "ota_type" with
    | none => .error (.crashed .missingField)
    | some v =>
      ((Row.field "ota_type" v Schema.text).mapError .malformed).map fun otaType =>
        some ⟨password, otaType⟩

/-- The order of password items: by provider, then by password. -/
def before (a b : PasswordItem) : Bool :=
  a.otaType < b.otaType || (a.otaType == b.otaType && !decide (b.password < a.password))

/-- Distinct items in order. -/
def sortItems (items : List PasswordItem) : List PasswordItem := items.eraseDups.mergeSort before

/-- Decrypts stored items. -/
def decryptItems (now : T) (items : List Value) : Action T (List PasswordItem) := do
  let keys ← ofExcept (storedPasswords items)
  let plaintexts ← decryptKeys now keys
  let found ← ofExcept (items.mapM (toItem plaintexts))
  return sortItems (found.filterMap id)

/-- The live list under a key. Where there is none, one has to be loaded. -/
def liveList (now : T) (key : String) : Action T (Option (List PasswordItem)) := do
  let r ← get
  let (cached, lists) := r.lists.get now key
  set { r with lists, loads := if cached.isSome then r.loads else r.loads + 1 }
  return cached

/-- Makes a list from stored items and keeps it under a key. -/
def newList (now : T) (key : String) (stored : List Value) : Action T (List PasswordItem) := do
  let items ← decryptItems now stored
  let r ← get
  let (done, lists) := r.lists.set now key (some items)
  set { r with lists }
  if done then return items else throw (.crashed .outOfRange)

/-- The password list under a key: the live one, or a new one made from what `load` yields. -/
def passwordList (now : T) (key : String) (load : Unit → Except Failure (List Value)) :
    Action T (List PasswordItem) := do
  match ← liveList now key with
  | some items => return items
  | none => newList now key (← ofExcept (load ()))

/-- Drops everything that is cached. -/
def invalidate (r : Resolver T) : Resolver T :=
  { r with values := r.values.clear, lists := r.lists.clear }

end Resolver

end AuditReport
