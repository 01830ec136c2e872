import AuditReport.Export.Sheet
import AuditReport.Http.Payload
import AuditReport.Http.Target
import AuditReport.Json.Writer

/-! Requests to the report and its answers to them. -/

namespace AuditReport.Http

/-- A request. -/
structure Request where
  method : String
  /-- The path, decoded. -/
  path : String
  /-- The query as it was sent, without the question mark. -/
  query : String
  /-- Named values, the names in lower case. -/
  headers : List (String × String)
  body : Payload
  client : Option String
  /-- The name of the server that the request was sent to. -/
  server : String
  /-- How many milliseconds it took to answer. -/
  elapsed : Float
  deriving Repr

namespace Request

/-- The value of a header. -/
def header? (r : Request) (name : String) : Option String := r.headers.lookup name

/-- The path as it is logged: as in a location, without tabs and line ends. The location is one on the
request's host. A host that is not proper does not get into it in the release modelled here
(`Host.isProper`), so no part of a host is ever taken for the start of the path. -/
def shownPath (r : Request) : String :=
  String.ofList ((locationPath r.path).toList.filter fun c => c != '\t' && c != '\r' && c != '\n')

/-- The path as it is logged starts with a text. -/
def isUnder (r : Request) (start : String) : Bool := r.shownPath.startsWith start

end Request

/-- What an answer carries. -/
inductive Body where
  | empty
  | json (v : Value)
  | text (s : String)
  | sheet (s : Sheet)
  deriving Repr

/-- An answer. -/
structure Response where
  status : Nat
  /-- Named values, the names in lower case. -/
  headers : List (String × String)
  body : Body
  deriving Repr

/-- The magnitude of an offset in seconds, rounded to the nearest. -/
def offsetSeconds (o : Calendar.Offset) : Nat :=
  (o.micros.natAbs + Calendar.second / 2) / Calendar.second

/-- The text of a moment in an answer: universal time is marked by the letter `Z`, and offsets are
told in hours and minutes. -/
def momentText (t : Calendar.Moment) : String :=
  let clock := { t with offset := none }.isoText
  match t.offset with
  | none => clock
  | some o =>
    let n := offsetSeconds o
    if n = 0 then clock ++ "Z"
    else
      clock ++ (if o.micros < 0 then "-" else "+") ++ Calendar.Moment.padded 2 (n / 3600) ++ ":" ++
        Calendar.Moment.padded 2 (n / 60 % 60)

mutual

/-- A value as it stands in an answer: moments as texts, and nothing for numbers that are not
finite. -/
def answerValue : Value → Value
  | .moment t => .text (momentText t)
  | .float x => if Number.isFinite x then .float x else .null
  | .list xs => .list (answerItems xs)
  | .object fs => .object (answerFields fs)
  | v => v

/-- `answerValue` for the items of a list. -/
def answerItems : List Value → List Value
  | [] => []
  | x :: rest => answerValue x :: answerItems rest

/-- `answerValue` for the fields of an object. -/
def answerFields : List (String × Value) → List (String × Value)
  | [] => []
  | (k, v) :: rest => (k, answerValue v) :: answerFields rest

end

namespace Response

/-- An answer that carries a value. -/
def json (status : Nat) (v : Value) : Response :=
  ⟨status, [("content-type", "application/json")], .json (answerValue v)⟩

/-- An answer that carries nothing but a detail. -/
def detail (status : Nat) (v : Value) : Response := json status (.object [("detail", v)])

/-- Adds a header. -/
def withHeader (r : Response) (name value : String) : Response :=
  { r with headers := r.headers ++ [(name, value)] }

/-- The text that the answer carries. -/
def bodyText (r : Response) : String :=
  match r.body with
  | .json v => Json.write Json.compact v
  | .text s => s
  | .empty | .sheet _ => ""

end Response

end AuditReport.Http
