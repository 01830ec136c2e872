import AuditReport.Http.Message
import AuditReport.Http.Target
import AuditReport.Json.Reader
import AuditReport.Log.Table
import AuditReport.Request.Report
import AuditReport.Text.Encoding

/-! What requests carry, read into typed values. Faults are named by their places in the request:
in the body, the query or the path. -/

namespace AuditReport.Http

open Schema

/-- Why a request is turned down before anything is done for it. -/
inductive InputFault where
  | invalid (issues : List Issue)
  /-- The body cannot be read at all. -/
  | unreadableBody
  deriving Repr

namespace Input

/-- A content type that stands for JSON. -/
def isJson (contentType : String) : Bool :=
  let kind := Text.foldAscii (Text.trim (String.ofList (contentType.toList.takeWhile (· != ';'))))
  match pieces '/' kind.toList with
  | [main, sub] =>
    main == "application".toList && (sub == "json".toList || "+json".toList.isSuffixOf sub)
  | _ => false

/-- The most lists and objects that a body may have inside one another. -/
def bodyDepth : Nat := 940

/-- The value in a request's body, if it has a body. A body that is not declared to be JSON is
its bytes. -/
def bodyValue (r : Request) : Except InputFault (Option Value) :=
  let bytes := r.body.bytes
  if bytes.isEmpty then .ok none
  else if !isJson ((r.header? "content-type").getD "") then .ok (some (.bytes bytes))
  else match (Text.Encoding.read bytes).map (Json.readWithin bodyDepth) with
    | some (.ok v) => .ok (some v)
    | some (.error (.unreadableAt position)) =>
      .error (.invalid [⟨[.field "body", .item position], .unreadableJson, .object []⟩])
    | some (.error .oversizedInteger) | some (.error .tooDeep) | none => .error .unreadableBody

/-- What a reader makes of the body. -/
def body {α : Type} (r : Request) (read : Reader α) : Except InputFault α := do
  match ← bodyValue r with
  | none => throw (.invalid [⟨[.field "body"], .missing, .null⟩])
  | some v => (Reading.under (.field "body") (read v)).mapError .invalid

/-- What a reader makes of a part of the path. -/
def pathPart {α : Type} (name value : String) (read : Reader α) : Except InputFault α :=
  (Reading.under (.field "path") (Reading.under (.field name) (read (.text value)))).mapError
    .invalid

/-- Which log entries a request asks for. -/
structure LogRequest where
  limit : Int
  offset : Int
  filter : LogFilter

/-- A status code as a bound. -/
def statusBound : Reader (Option Int) := fun v => (integerIn 100 (some 599) v).map some

/-- Reads a query for log entries. Of repeated parameters the last counts. -/
def logRequest (r : Request) : Except InputFault LogRequest :=
  let d := Document.ofPairs ((parameters r.query).map fun (name, s) => (name, .text s))
  let limit := optional d ["limit"] (integerIn 1 (some 1000)) 50
  let offset := optional d ["offset"] (integerIn 0 none) 0
  let hours := optional d ["hours"] (integerIn 1 (some 168)) 24
  let statusMin := optional d ["status_min"] statusBound none
  let statusMax := optional d ["status_max"] statusBound none
  let pathPrefix := optional d ["path_prefix"] (fun v => (text v).map some) none
  let make (limit offset hours : Int) (statusMin statusMax : Option Int)
      (pathPrefix : Option String) : LogRequest :=
    ⟨limit, offset, ⟨hours, statusMin, statusMax, pathPrefix⟩⟩
  let read := Reading.app (Reading.app (limit.map make) offset) hours
  let read := Reading.app (Reading.app (Reading.app read statusMin) statusMax) pathPrefix
  (Reading.under (.field "query") read).mapError .invalid

end Input

/-! ## Faults as told to the caller -/

/-- One step of a place. -/
def stepText : Step → String
  | .field name => Text.quoted name
  | .item index => toString index

/-- A place, as its steps between parentheses. -/
def placeText (path : List Step) : String :=
  match path.map stepText with
  | [only] => "(" ++ only ++ ",)"
  | steps => "(" ++ ", ".intercalate steps ++ ")"

mutual

/-- A value with the texts of all that is not a list or an object. -/
def spelled : Value → Value
  | .list xs => .list (spelledItems xs)
  | .object fs => .object (spelledFields fs)
  | v => .text v.shown

/-- `spelled` for the items of a list. -/
def spelledItems : List Value → List Value
  | [] => []
  | x :: rest => spelled x :: spelledItems rest

/-- `spelled` for the fields of an object. -/
def spelledFields : List (String × Value) → List (String × Value)
  | [] => []
  | (k, v) :: rest => (k, spelled v) :: spelledFields rest

end

mutual

/-- How many lists and objects a value has inside one another. -/
def depth : Value → Nat
  | .list xs => depthOfItems xs + 1
  | .object fs => depthOfFields fs + 1
  | _ => 0

/-- The greatest depth among the items of a list. -/
def depthOfItems : List Value → Nat
  | [] => 0
  | x :: rest => max (depth x) (depthOfItems rest)

/-- The greatest depth among the fields of an object. -/
def depthOfFields : List (String × Value) → Nat
  | [] => 0
  | (_, v) :: rest => max (depth v) (depthOfFields rest)

end

/-- The most lists and objects that can be told inside one another. -/
def toldDepth : Nat := 465

/-- A fault of a part of the request that cannot be told, so deep is that part. -/
def isUntellable (e : Issue) : Bool := toldDepth < depth e.input

/-- A fault as told to the caller. -/
def issueValue (e : Issue) : Value :=
  .object [("loc", .text (placeText e.path)), ("type", .text e.kind.name),
    ("input", spelled e.input)]

/-- Faults as told to the caller. -/
def issuesValue (es : List Issue) : Value := .list (es.map issueValue)

end AuditReport.Http
