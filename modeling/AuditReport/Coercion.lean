import AuditReport.Calendar.Iso
import AuditReport.Catalog.Column
import AuditReport.Number.Reading
import AuditReport.Number.Word
import AuditReport.Request.Rejection
import AuditReport.Value.Text

/-! Turning the values of filters into the form in which the store holds them: identities, 64-bit
integers and finite doubles, moments of universal time, truth values. -/

namespace AuditReport

/-- Why a value has no stored form. -/
inductive CoercionError where
  | rejected (r : Rejection)
  /-- In universal time the moment falls outside the years 1 to 9999. -/
  | outOfCalendar
  deriving DecidableEq, Repr

namespace Coercion

/-- Refuses a value for a reason whose wording holds its text. -/
def refuse (reason : String → Rejection) (v : Value) : CoercionError :=
  .rejected (.withText reason v.shown?)

/-- An identity, or a value whose text is that of one. -/
def toId (v : Value) (key : String) : Except CoercionError DocumentId :=
  match v with
  | .id i => .ok i
  | _ =>
    match v.shown?.bind DocumentId.ofText? with
    | some i => .ok i
    | none => .error (refuse (.invalidId · key) v)

/-- The number that a text denotes: an integer if it reads as one, a double otherwise. -/
def readNumber? (s : String) : Option Value :=
  let cs := (Text.trim s).toList
  match Number.readInt? cs with
  | some n => some (.int n)
  | none => (Number.readFloat? cs).map .float

/-- A number that the store can hold, read from a given value. -/
def checkNumber (given : Value) (key : String) : Value → Except CoercionError Value
  | .int n =>
    if Number.isWord n then .ok (.int n) else .error (refuse (.numberOutOfRange · key) given)
  | .float x =>
    if Number.isFinite x then .ok (.float x) else .error (refuse (.numberNotFinite · key) given)
  | _ => .error (refuse (.invalidNumber · key) given)

/-- A 64-bit integer or a finite double, given as such or as a text. -/
def toNumber (v : Value) (key : String) : Except CoercionError Value :=
  match v with
  | .text s => checkNumber v key ((readNumber? s).getD .null)
  | _ => checkNumber v key v

/-- The text of a moment, a capital `Z` at its end standing for universal time. -/
def readMoment? (s : String) : Option Calendar.Moment :=
  let cs := (Text.trim s).toList
  Calendar.Iso.read (if cs.getLast? = some 'Z' then cs.dropLast ++ "+00:00".toList else cs)

/-- The moment that a value denotes. -/
def givenMoment? : Value → Option Calendar.Moment
  | .moment t => some t
  | .day d => some (Calendar.Moment.ofDay d)
  | .text s => readMoment? s
  | _ => none

/-- A moment on the clock of universal time, without offset. -/
def toMoment (v : Value) (key : String) : Except CoercionError Calendar.Moment :=
  match givenMoment? v with
  | none => .error (refuse (.invalidDate · key) v)
  | some t =>
    match t.universal? with
    | some u => .ok u
    | none => .error .outOfCalendar

/-- A truth value, or the word for one in either case. -/
def toBoolean (v : Value) (key : String) : Except CoercionError Bool :=
  match v with
  | .bool b => .ok b
  | .text s =>
    let word := Text.fold (Text.trim s)
    if word = "true" then .ok true
    else if word = "false" then .ok false
    else .error (refuse (.invalidBoolean · key) v)
  | _ => .error (refuse (.invalidBoolean · key) v)

/-- The stored form of one value of a column. Texts and fixed values are stored as they are. -/
def scalar (c : Column) (v : Value) : Except CoercionError Value :=
  match c.dataType with
  | .id => (toId v c.key).map .id
  | .number => toNumber v c.key
  | .date => (toMoment v c.key).map .moment
  | .boolean => (toBoolean v c.key).map .bool
  | .string | .enumeration => .ok v

/-- The stored form of what an operator takes: nothing, a range, a list, or one value. -/
def value (c : Column) (operator : Operator) (v : Value) : Except CoercionError Value :=
  match operator with
  | .isNull | .isNotNull => .ok .null
  | .between =>
    match v.fields.get? "from", v.fields.get? "to" with
    | some low, some high => do
      let low ← scalar c low
      let high ← scalar c high
      return .object [("from", low), ("to", high)]
    | _, _ => .error (.rejected (.noRange c.key))
  | .isIn | .notIn =>
    match v with
    | .list items => (items.mapM (scalar c)).map .list
    | _ => (scalar c v).map fun w => .list [w]
  | _ => scalar c v

end Coercion

end AuditReport
