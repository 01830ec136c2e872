import AuditReport.Http.Host
import AuditReport.Http.Payload
import AuditReport.Text.Surrogate

/-! The client's side of a request: what it sends for a target that it is given, and which locations
it can make out. -/

namespace AuditReport.Http.Client

/-- Adds a segment to the segments of a path so far: one point stands for none, two take away the
last. -/
def addSegment (kept : List (List Char)) (segment : List Char) : List (List Char) :=
  if segment == ['.'] then kept
  else if segment == ['.', '.'] then if kept == [] || kept == [[]] then kept else kept.dropLast
  else kept ++ [segment]

/-- The path without its dot segments. -/
def withoutDots (path : List Char) : List Char :=
  ['/'].intercalate ((pieces '/' path).foldl addSegment [])

/-- Why a request is not sent. -/
inductive Fault where
  /-- A target that is too long, holds a control character or begins with four slashes. -/
  | badTarget
  /-- A text that has no encoded form. -/
  | unencodable
  deriving DecidableEq, Repr

/-- The length of the longest target. -/
def targetLimit : Nat := 65536

/-- A character that targets must not hold. -/
def isControl (c : Char) : Bool := c.toNat < 0x20 || c.toNat = 0x7F

/-- A character that ends a host. -/
def endsHost (c : Char) : Bool := c = '/' || c = '?' || c = '#'

/-- A target without the host that two slashes announce. -/
def withoutHost : List Char → List Char
  | '/' :: '/' :: rest => rest.dropWhile fun c => !endsHost c
  | cs => cs

/-- What is wrong with a target. -/
def targetFault? (target : String) : Option Fault :=
  let cs := target.toList
  if targetLimit < cs.length || cs.any isControl || cs.take 4 == ['/', '/', '/', '/'] then
    some .badTarget
  else if Text.Surrogate.isPaired target then none
  else some .unencodable

/-- All characters of a text are ASCII. -/
def isAscii (s : String) : Bool := s.toList.all (·.toNat < 0x80)

/-- The names and values of headers are plain ASCII, and the body has a UTF-8 form. -/
def isEncodable (headers : List (String × String)) (body : Payload) : Bool :=
  (headers.all fun h => isAscii h.1 && isAscii h.2) && Text.Surrogate.isPaired body.text

/-- What keeps a request from being sent. -/
def fault? (target : String) (headers : List (String × String)) (body : Payload) : Option Fault :=
  targetFault? target <|> if isEncodable headers body then none else some .unencodable

/-- The path, decoded, and the query that are sent for a target. -/
def split (target : String) : String × String :=
  let cs := ('/' :: (withoutHost target.toList).dropWhile (· == '/')).takeWhile (· != '#')
  let path := withoutDots (cs.takeWhile (· != '?'))
  (percentDecode (percentDecode (String.ofList path)),
    String.ofList ((cs.dropWhile (· != '?')).drop 1))

/-- As many runs of digits as there are numbers in an address, with any character between two of
them. -/
def looksFourfold : (more : Nat) → List Char → Bool
  | 0, cs => !cs.isEmpty && cs.all Text.isAsciiDigit
  | more + 1, cs => (List.range cs.length).any fun i =>
    (cs.take (i + 1)).all Text.isAsciiDigit && looksFourfold more (cs.drop (i + 2))

/-- The host of a location can be made out: brackets hold an address of eight groups, and what looks
like an address of four numbers is one. -/
def isReadableLocation (location : String) : Bool :=
  let authority := ((location.toList.dropWhile (· != '/')).drop 2).takeWhile (· != '/')
  match authority with
  | '[' :: rest => Host.isEightfold (rest.takeWhile (· != ']'))
  | cs =>
    let host := cs.takeWhile (· != ':')
    !looksFourfold 3 host || Host.isFourfold host

end AuditReport.Http.Client
