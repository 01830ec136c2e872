import AuditReport.Text.Surrogate

/-! Bytes as text, in the Unicode encoding that the first bytes show. Where a text starts with two
characters of ASCII, the zeros among its first four bytes tell the width and the order of its
units. -/

namespace AuditReport.Text

/-- The encodings. -/
inductive Encoding where
  | utf8
  | utf16 (bigEndian : Bool)
  | utf32 (bigEndian : Bool)
  deriving DecidableEq, Repr

namespace Encoding

/-- The encoding that the zeros among the first bytes show. -/
def ofZeros : List UInt8 → Encoding
  | 0 :: b :: _ :: _ :: _ => if b = 0 then utf32 true else utf16 true
  | _ :: 0 :: c :: d :: _ => if c = 0 ∧ d = 0 then utf32 false else utf16 false
  | [0, _] => utf16 true
  | [_, 0] => utf16 false
  | _ => utf8

/-- The number that some bytes make. -/
def number (bigEndian : Bool) (bs : List UInt8) : Nat :=
  (if bigEndian then bs else bs.reverse).foldl (fun n b => 256 * n + b.toNat) 0

/-- The sixteen-bit units of some bytes, which have to come in pairs. -/
def units (bigEndian : Bool) : List UInt8 → Option (List Nat)
  | [] => some []
  | a :: b :: rest => (units bigEndian rest).map (number bigEndian [a, b] :: ·)
  | [_] => none

/-- The characters of some units, a lone surrogate for each that has no partner. -/
def ofUnits : List Nat → List Char
  | [] => []
  | [n] => [Surrogate.ofUnit n]
  | first :: second :: rest =>
    if Surrogate.isFirst first && Surrogate.isSecond second then
      Surrogate.ofPair first second :: ofUnits rest
    else Surrogate.ofUnit first :: ofUnits (second :: rest)

/-- The characters of some bytes, four of which make one. -/
def ofQuads (bigEndian : Bool) : List UInt8 → Option (List Char)
  | [] => some []
  | a :: b :: c :: d :: rest =>
    let n := number bigEndian [a, b, c, d]
    if n < 0x110000 then (ofQuads bigEndian rest).map (Surrogate.ofUnit n :: ·) else none
  | _ => none

/-- The text of some bytes in an encoding. -/
def decode : Encoding → List UInt8 → Option String
  | utf8, bs => String.fromUTF8? ⟨bs.toArray⟩
  | utf16 bigEndian, bs => (units bigEndian bs).map fun ns => String.ofList (ofUnits ns)
  | utf32 bigEndian, bs => (ofQuads bigEndian bs).map String.ofList

/-- The text of some bytes in the encoding that they show. A byte order mark of UTF-8 is left
out. -/
def read : List UInt8 → Option String
  | 0xEF :: 0xBB :: 0xBF :: rest => decode utf8 rest
  | bs => decode (ofZeros bs) bs

end Encoding

end AuditReport.Text
