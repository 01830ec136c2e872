import AuditReport.Number.Binary
import AuditReport.Text.Character

/-! Reading numbers: digits of any script, single underscores between digits, and for doubles a
point, an exponent and the names of infinity and not-a-number. -/

namespace AuditReport.Number

/-- A number as found in a text: a sign and a run of digits is taken off the front of `rest`. -/
def takeSign : List Char → Bool × List Char
  | '-' :: rest => (true, rest)
  | '+' :: rest => (false, rest)
  | cs => (false, cs)

/-- Digits of one run after its first digit. An underscore counts only between two digits. -/
def moreDigits (value? : Char → Option Nat) : List Char → List Nat × List Char
  | [] => ([], [])
  | '_' :: c :: rest =>
    match value? c with
    | some d => let (ds, rest) := moreDigits value? rest; (d :: ds, rest)
    | none => ([], '_' :: c :: rest)
  | c :: rest =>
    match value? c with
    | some d => let (ds, rest) := moreDigits value? rest; (d :: ds, rest)
    | none => ([], c :: rest)

/-- A run of digits at the front of a text, possibly empty, and what follows it. -/
def takeDigits (value? : Char → Option Nat) : List Char → List Nat × List Char
  | [] => ([], [])
  | c :: rest =>
    match value? c with
    | some d => let (ds, rest) := moreDigits value? rest; (d :: ds, rest)
    | none => ([], c :: rest)

/-- The number that a run of decimal digits denotes. -/
def ofDigits (ds : List Nat) : Nat := ds.foldl (fun n d => 10 * n + d) 0

/-- The most digits with which an integer is read or printed. -/
def digitLimit : Nat := 4300

/-- The integer has few enough digits to be printed. Its sign does not count. -/
def isPrintable (n : Int) : Bool := (Nat.toDigits 10 n.natAbs).length ≤ digitLimit

/-- Reads all of a text as an integer: an optional sign and one run of at most `digitLimit`
digits. -/
def readInt? (cs : List Char) : Option Int :=
  let (negative, cs) := takeSign cs
  match takeDigits Text.decimalValue? cs with
  | ([], _) => none
  | (ds, []) =>
    if ds.length ≤ digitLimit then
      let n : Int := ofDigits ds
      some (if negative then -n else n)
    else none
  | _ => none

/-- The double nearest to `mantissa * 10 ^ exponent`, where `mantissa` has at most `width` digits.
Exponents beyond the range of doubles are answered without computing the power. -/
def ofScientific (mantissa width : Nat) (exponent : Int) : Float :=
  if mantissa = 0 then 0.0
  else if 400 < exponent then 1.0 / 0.0
  else if exponent + width < -400 then 0.0
  else if 0 ≤ exponent then Float.ofScientific mantissa false exponent.toNat
  else Float.ofScientific mantissa true (-exponent).toNat

/-- An exponent part, if the text continues with a well-formed one. -/
def takeExponent (value? : Char → Option Nat) : List Char → Option Int × List Char
  | [] => (none, [])
  | c :: rest =>
    if c = 'e' ∨ c = 'E' then
      let (negative, digits) := takeSign rest
      match takeDigits value? digits with
      | ([], _) => (none, c :: rest)
      | (ds, rest) =>
        let n : Int := ofDigits ds
        (some (if negative then -n else n), rest)
    else (none, c :: rest)

/-- Reads all of a text as an unsigned decimal number with optional fraction and exponent. At least
one digit stands before or after the point. -/
def readDecimal? (value? : Char → Option Nat) (cs : List Char) : Option Float :=
  let (whole, rest) := takeDigits value? cs
  let (fraction, rest) := match rest with
    | '.' :: rest => takeDigits value? rest
    | _ => ([], rest)
  if whole.isEmpty && fraction.isEmpty then none
  else
    let (exponent, rest) := takeExponent value? rest
    if rest.isEmpty then
      let digits := whole ++ fraction
      some (ofScientific (ofDigits digits) digits.length (exponent.getD 0 - fraction.length))
    else none

/-- The names of the numbers that are not finite, in lower case. -/
def namedFloat? (name : String) : Option Float :=
  if name = "inf" ∨ name = "infinity" then some (1.0 / 0.0)
  else if name = "nan" then some (0.0 / 0.0)
  else none

/-- Reads all of a text as a double. -/
def readFloat? (cs : List Char) : Option Float :=
  let (negative, body) := takeSign cs
  let magnitude := match namedFloat? (Text.foldAscii (String.ofList body)) with
    | some x => some x
    | none => readDecimal? Text.decimalValue? body
  magnitude.map fun x => if negative then -x else x

end AuditReport.Number
