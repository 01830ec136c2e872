import AuditReport.Number.Reading
import AuditReport.Text.Hex
import AuditReport.Text.Utf8

/-! The targets of requests: percent-encoded paths and queries. -/

namespace AuditReport.Http

/-- The bytes that a percent-encoded text stands for. A percent sign without two hexadecimal digits
behind it stands for itself. -/
def percentBytes : List Char → List UInt8
  | [] => []
  | '%' :: a :: b :: rest =>
    match Text.Hex.value? a, Text.Hex.value? b with
    | some high, some low => UInt8.ofNat (16 * high + low) :: percentBytes rest
    | _, _ => '%'.toString.toUTF8.toList ++ percentBytes (a :: b :: rest)
  | c :: rest => c.toString.toUTF8.toList ++ percentBytes rest

/-- The text that a percent-encoded text stands for. -/
def percentDecode (s : String) : String := String.ofList (Text.Utf8.read (percentBytes s.toList))

/-- A character that a location may hold as it is. -/
def isPlainInLocation (c : Char) : Bool :=
  c.isAlphanum || "_.-~:/%#?=@[]!$&'()*+,;".toList.contains c

/-- A character of a location: as it is or as its percent-encoded bytes. -/
def locationChar (c : Char) : List Char :=
  if isPlainInLocation c then [c]
  else c.toString.toUTF8.toList.flatMap fun b =>
    let digits := (Text.Hex.ofByte b).map Char.toUpper
    '%' :: digits

/-- A path as it stands in a location: the characters that would end it, and backslashes, are
percent-encoded. -/
def locationPath (path : String) : String :=
  String.ofList (path.toList.flatMap fun c =>
    if c = '?' then "%3F".toList
    else if c = '#' then "%23".toList
    else if c = '\\' then "%5C".toList
    else [c])

/-- A text as it stands in a location. -/
def locationText (s : String) : String := String.ofList (s.toList.flatMap locationChar)

/-- The pieces of a text between separators. -/
def pieces (separator : Char) : List Char → List (List Char)
  | [] => [[]]
  | c :: rest =>
    if c = separator then [] :: pieces separator rest
    else match pieces separator rest with
      | [] => [[c]]
      | first :: others => (c :: first) :: others

/-- One side of a parameter: plus signs stand for spaces. -/
def parameterText (cs : List Char) : String :=
  percentDecode (String.ofList (cs.map fun c => if c = '+' then ' ' else c))

/-- A parameter: its name, and its value behind the first equals sign. -/
def parameter (cs : List Char) : String × String :=
  (parameterText (cs.takeWhile (· != '=')), parameterText ((cs.dropWhile (· != '=')).drop 1))

/-- The parameters of a query in order. -/
def parameters (query : String) : List (String × String) :=
  ((pieces '&' query.toList).filter (!·.isEmpty)).map parameter

end AuditReport.Http
