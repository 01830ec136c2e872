import AuditReport.Log.Entry
import AuditReport.Number.Reading
import AuditReport.Value.Text

/-! What the columns of the request log keep of the values that they are given. -/

namespace AuditReport.LogDraft

/-- What a column keeps of a value. Null leaves it empty; some kinds of values it does not take. -/
abbrev Column (α : Type) := Value → Option (Option α)

/-- A text column: numbers, days and moments are kept as their texts, truth values as 1 and 0, and
bytes as the text that they encode. -/
def textColumn : Column String
  | .null => some none
  | .text s => some (some s)
  | .bool b => some (some (if b then "1" else "0"))
  | .bytes bs => (String.fromUTF8? ⟨bs.toArray⟩).map some
  | .list _ | .object _ | .id _ => none
  | v => some (some v.shown)

/-- The integer that digits denote, with or without a minus sign. -/
def signedDigits? (s : String) : Option Int :=
  let number (cs : List Char) : Option Nat :=
    if !cs.isEmpty && cs.all Text.isAsciiDigit then
      some (Number.ofDigits (cs.filterMap Text.asciiDigit?))
    else none
  match s.toList with
  | '-' :: cs => (number cs).map fun n => -n
  | cs => (number cs).map fun n => n

/-- A column of whole numbers: truth values are kept as 1 and 0, whole doubles and digits as the
numbers that they denote. -/
def numberColumn : Column Int
  | .null => some none
  | .int n => some (some n)
  | .bool b => some (some (if b then 1 else 0))
  | .float x => (Number.toInt? x).map some
  | .text s => (signedDigits? s).map some
  | _ => none

/-- The double that a text denotes. -/
def spanText? (s : String) : Option (Option Float) :=
  (Number.readFloat? (Text.trim s).toList).map some

/-- A column of doubles: whole numbers are kept as the nearest double, truth values as 1 and 0, and
texts as the numbers that they denote. -/
def spanColumn : Column Float
  | .null => some none
  | .float x => some (some x)
  | .int n => (Number.ofInt? n).map some
  | .bool b => some (some (if b then 1.0 else 0.0))
  | .text s => spanText? s
  | .bytes bs => (String.fromUTF8? ⟨bs.toArray⟩).bind spanText?
  | _ => none

/-- A column of moments: a day is kept as its start. -/
def momentColumn : Column Calendar.Moment
  | .null => some none
  | .moment t => some (some t)
  | .day d => some (some (Calendar.Moment.ofDay d))
  | _ => none

/-- The names of the columns. -/
def columnNames : List String :=
  ["id", "timestamp", "method", "path", "status_code", "client_ip", "request_body", "response_body",
    "processing_time", "user_agent", "user_id", "user_role", "error_type", "hostname",
    "application_id"]

/-- The draft of named values, if their columns take them all. -/
def taken? (d : Document) : Option LogDraft := do
  return {
    id := ← numberColumn (d.get "id"), timestamp := ← momentColumn (d.get "timestamp")
    method := ← textColumn (d.get "method"), path := ← textColumn (d.get "path")
    status := ← numberColumn (d.get "status_code"), clientIp := ← textColumn (d.get "client_ip")
    requestBody := ← textColumn (d.get "request_body")
    responseBody := ← textColumn (d.get "response_body")
    processingTime := ← spanColumn (d.get "processing_time")
    userAgent := ← textColumn (d.get "user_agent"), userId := ← textColumn (d.get "user_id")
    userRole := ← textColumn (d.get "user_role"), errorType := ← textColumn (d.get "error_type")
    hostname := ← textColumn (d.get "hostname")
    applicationId := ← textColumn (d.get "application_id") }

/-- The draft of named values; there is none if no column has one of the names. Where a column does
not take its value, nothing is known, so that the table refuses the draft. -/
def ofDocument? (d : Document) : Option LogDraft :=
  if d.all fun f => columnNames.contains f.1 then some ((taken? d).getD blank) else none

end AuditReport.LogDraft
