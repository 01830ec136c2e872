import AuditReport.Http.Target

/-! Hosts as requests name them: a registered name or an address in brackets, and perhaps a port. -/

namespace AuditReport.Http.Host

/-- A character that a name holds as it is. -/
def isNameChar (c : Char) : Bool := c.isAlphanum || "-._~!$&'()*+,;=".toList.contains c

/-- A name: characters as they are and percent-encoded bytes. -/
def isName : List Char → Bool
  | [] => true
  | '%' :: a :: b :: rest => (Text.Hex.value? a).isSome && (Text.Hex.value? b).isSome && isName rest
  | c :: rest => isNameChar c && isName rest

/-- One of the four numbers of an address: up to 255 and without zeros in front. -/
def isOctet (cs : List Char) : Bool :=
  !cs.isEmpty && cs.length ≤ 3 && cs.all Text.isAsciiDigit &&
    (cs.length = 1 || cs.head? != some '0') &&
    Number.ofDigits (cs.filterMap Text.asciiDigit?) ≤ 255

/-- An address of four numbers with points between them. -/
def isFourfold (cs : List Char) : Bool :=
  let parts := pieces '.' cs
  parts.length = 4 && parts.all isOctet

/-- One of the eight groups of an address: up to four hexadecimal digits. -/
def isGroup (cs : List Char) : Bool :=
  !cs.isEmpty && cs.length ≤ 4 && cs.all fun c => (Text.Hex.value? c).isSome

/-- The parts between the colons of an address, an address of four numbers at the end as two
groups. -/
def groups (cs : List Char) : List (List Char) :=
  let parts := pieces ':' cs
  match parts.getLast? with
  | some last => if isFourfold last then parts.dropLast ++ [['0'], ['0']] else parts
  | none => parts

/-- An address of eight groups with colons between them. Two colons in a row stand once for groups
left out. -/
def isEightfold (cs : List Char) : Bool :=
  let parts := groups cs
  let inner := (parts.drop 1).dropLast
  let given := parts.filter (!·.isEmpty)
  let gaps := (inner.filter List.isEmpty).length
  given.all isGroup && 3 ≤ (pieces ':' cs).length && parts.length ≤ 9 &&
    if gaps = 0 then parts.length = 8 && given.length = 8
    else
      gaps = 1 && given.length ≤ 7 && (parts.head? != some [] || inner.head? = some []) &&
        (parts.getLast? != some [] || inner.getLast? = some [])

/-- An address of a kind still to come: a version and what belongs to it. -/
def isFuture : List Char → Bool
  | 'v' :: rest | 'V' :: rest =>
    let version := rest.takeWhile (· != '.')
    let address := (rest.dropWhile (· != '.')).drop 1
    !version.isEmpty && version.all (fun c => (Text.Hex.value? c).isSome) && !address.isEmpty &&
      address.all fun c => isNameChar c || c = ':'
  | _ => false

/-- The part behind a host: nothing, or a colon and a port. -/
def isPortPart : List Char → Bool
  | [] => true
  | ':' :: digits =>
    !digits.isEmpty && digits.all Text.isAsciiDigit &&
      Number.ofDigits (digits.filterMap Text.asciiDigit?) ≤ 65535
  | _ => false

/-- A host is proper: a name that is not empty, or an address in brackets, with or without a
port. -/
def isProper (s : String) : Bool :=
  match s.toList with
  | '[' :: rest =>
    let address := rest.takeWhile (· != ']')
    match rest.dropWhile (· != ']') with
    | ']' :: port => (isEightfold address || isFuture address) && isPortPart port
    | _ => false
  | cs =>
    let name := cs.takeWhile (· != ':')
    !name.isEmpty && isName name && isPortPart (cs.dropWhile (· != ':'))

end AuditReport.Http.Host
