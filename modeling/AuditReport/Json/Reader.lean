import AuditReport.Number.Reading
import AuditReport.Text.Surrogate
import AuditReport.Value

/-! Reading JSON text. Beyond the standard, `NaN` and the infinities are numbers; of repeated names
in an object the last counts, in the place of the first. A fault is reported with the position, in
characters, of the first one that cannot continue the text. -/

namespace AuditReport.Json

/-- Why a text is not JSON. -/
inductive ReadError where
  | unreadableAt (position : Nat)
  /-- An integer with more digits than `Number.digitLimit`. -/
  | oversizedInteger
  /-- More lists and objects inside one another than are allowed. -/
  | tooDeep
  deriving DecidableEq, Repr

/-- A place in a text: what is left of it, and how many characters come before. -/
structure Cursor where
  rest : List Char
  position : Nat

namespace Cursor

/-- The place `n` characters later. -/
def skip (c : Cursor) (n : Nat) : Cursor := ⟨c.rest.drop n, c.position + n⟩

/-- The place after any blanks. -/
def skipBlanks (c : Cursor) : Cursor :=
  c.skip (c.rest.takeWhile fun x => x = ' ' || x = '\t' || x = '\n' || x = '\r').length

/-- The fault that the text cannot go on as it does here. -/
def fault {α : Type} (c : Cursor) : Except ReadError α := .error (.unreadableAt c.position)

end Cursor

/-- The number that four hexadecimal digits denote. -/
def hexUnit? (cs : List Char) : Option Nat :=
  if cs.length = 4 then cs.foldlM (fun n c => (Text.Hex.value? c).map (16 * n + ·)) 0 else none

/-- The character after a backslash, `u` excepted. -/
def escaped? (c : Char) : Option Char :=
  [('"', '"'), ('\\', '\\'), ('/', '/'), ('b', '\x08'), ('f', '\x0c'), ('n', '\n'), ('r', '\r'),
    ('t', '\t')].lookup c

/-- A `\u` escape, and a second one that completes a surrogate pair. `c` stands at the
backslash. -/
def readUnit (c : Cursor) : Except ReadError (Char × Cursor) :=
  let digits := c.skip 2
  if (digits.rest.drop 4).isEmpty then (c.skip 1).fault
  else match hexUnit? (digits.rest.take 4) with
    | none => (c.skip 1).fault
    | some high =>
      let after := digits.skip 4
      if Text.Surrogate.isFirst high ∧ after.rest.take 2 = ['\\', 'u'] ∧ !(after.rest.drop 6).isEmpty then
        match hexUnit? ((after.rest.drop 2).take 4) with
        | none => (after.skip 1).fault
        | some low =>
          if Text.Surrogate.isSecond low then
            .ok (Text.Surrogate.ofPair high low, after.skip 6)
          else .ok (Text.Surrogate.ofUnit high, after)
      else .ok (Text.Surrogate.ofUnit high, after)

/-- The characters of a string up to its closing quote. `start` is the position of the opening
one; the characters so far are in `read`, last first. -/
def readString (start : Nat) : (fuel : Nat) → (read : List Char) → Cursor →
    Except ReadError (String × Cursor)
  | 0, _, c => c.fault
  | fuel + 1, read, c =>
    match c.rest with
    | [] => .error (.unreadableAt start)
    | '"' :: _ => .ok (String.ofList read.reverse, c.skip 1)
    | ['\\'] => .error (.unreadableAt start)
    | '\\' :: 'u' :: _ =>
      match readUnit c with
      | .ok (x, c) => readString start fuel (x :: read) c
      | .error e => .error e
    | '\\' :: x :: _ =>
      match escaped? x with
      | some y => readString start fuel (y :: read) (c.skip 2)
      | none => c.fault
    | x :: _ => if x.toNat < 0x20 then c.fault else readString start fuel (x :: read) (c.skip 1)

/-- The digits at the front of a text. -/
def digitSpan (cs : List Char) : List Char := cs.takeWhile Text.isAsciiDigit

/-- The length of the whole part of a number: zero alone, or digits that start with another one. -/
def wholeLength (cs : List Char) : Nat :=
  match cs with
  | '0' :: _ => 1
  | _ => (digitSpan cs).length

/-- The length of a fraction: a point and at least one digit. -/
def fractionLength : List Char → Nat
  | '.' :: rest => match digitSpan rest with
    | [] => 0
    | ds => ds.length + 1
  | _ => 0

/-- The length of an exponent: the letter, perhaps a sign, and at least one digit. -/
def exponentLength : List Char → Nat
  | e :: rest =>
    if e = 'e' ∨ e = 'E' then
      let sign := match rest with
        | '+' :: _ | '-' :: _ => 1
        | _ => 0
      match digitSpan (rest.drop sign) with
      | [] => 0
      | ds => 1 + sign + ds.length
    else 0
  | [] => 0

/-- A number: an integer unless it has a fraction or an exponent. -/
def readNumber (c : Cursor) : Except ReadError (Value × Cursor) :=
  let sign := if c.rest.head? = some '-' then 1 else 0
  let body := c.rest.drop sign
  let whole := wholeLength body
  if whole = 0 then c.fault
  else
    let fraction := fractionLength (body.drop whole)
    let exponent := exponentLength (body.drop (whole + fraction))
    let length := sign + whole + fraction + exponent
    let text := c.rest.take length
    if fraction + exponent = 0 then
      match Number.readInt? text with
      | some n => .ok (.int n, c.skip length)
      | none => .error .oversizedInteger
    else .ok (.float ((Number.readFloat? text).getD 0.0), c.skip length)

/-- The names of values that are not written with brackets, quotes or digits. -/
def words : List (String × Value) :=
  [("null", .null), ("true", .bool true), ("false", .bool false), ("NaN", .float (0.0 / 0.0)),
    ("Infinity", .float (1.0 / 0.0)), ("-Infinity", .float (-1.0 / 0.0))]

/-- The named value at the front of a text, if there is one. -/
def word? (cs : List Char) : Option (Value × Nat) :=
  (words.find? fun w => w.1.toList.isPrefixOf cs).map fun w => (w.2, w.1.length)

mutual

/-- A value with at most `depth` lists and objects inside one another. -/
def readValue : (fuel depth : Nat) → Cursor → Except ReadError (Value × Cursor)
  | 0, _, c => c.fault
  | fuel + 1, depth, c =>
    match c.rest with
    | '"' :: _ =>
      match readString c.position fuel [] (c.skip 1) with
      | .ok (s, c) => .ok (.text s, c)
      | .error e => .error e
    | '\x7b' :: _ =>
      match depth with
      | 0 => .error .tooDeep
      | depth + 1 =>
        let c := (c.skip 1).skipBlanks
        if c.rest.head? = some '\x7d' then .ok (.object [], c.skip 1) else readFields fuel depth [] c
    | '[' :: _ =>
      match depth with
      | 0 => .error .tooDeep
      | depth + 1 =>
        let c := (c.skip 1).skipBlanks
        if c.rest.head? = some ']' then .ok (.list [], c.skip 1) else readItems fuel depth [] c
    | _ =>
      match word? c.rest with
      | some (v, n) => .ok (v, c.skip n)
      | none => readNumber c

/-- The items of a list up to its closing bracket; those so far are in `read`, last first. -/
def readItems : (fuel depth : Nat) → (read : List Value) → Cursor →
    Except ReadError (Value × Cursor)
  | 0, _, _, c => c.fault
  | fuel + 1, depth, read, c =>
    match readValue fuel depth c with
    | .error e => .error e
    | .ok (v, c) =>
      let c := c.skipBlanks
      match c.rest with
      | ']' :: _ => .ok (.list (v :: read).reverse, c.skip 1)
      | ',' :: _ => readItems fuel depth (v :: read) (c.skip 1).skipBlanks
      | _ => c.fault

/-- The fields of an object up to its closing brace; those so far are in `read`, last first. -/
def readFields : (fuel depth : Nat) → (read : List (String × Value)) → Cursor →
    Except ReadError (Value × Cursor)
  | 0, _, _, c => c.fault
  | fuel + 1, depth, read, c =>
    match c.rest with
    | '"' :: _ =>
      match readString c.position fuel [] (c.skip 1) with
      | .error e => .error e
      | .ok (name, c) =>
        let c := c.skipBlanks
        if c.rest.head? = some ':' then
          match readValue fuel depth (c.skip 1).skipBlanks with
          | .error e => .error e
          | .ok (v, c) =>
            let c := c.skipBlanks
            match c.rest with
            | '\x7d' :: _ => .ok (.object (Document.ofPairs ((name, v) :: read).reverse), c.skip 1)
            | ',' :: _ => readFields fuel depth ((name, v) :: read) (c.skip 1).skipBlanks
            | _ => c.fault
        else c.fault
    | _ => c.fault

end

/-- Reads all of a text as one value between blanks, with at most `depth` lists and objects inside
one another. -/
def readWithin (depth : Nat) (s : String) : Except ReadError Value :=
  let cs := s.toList
  match readValue (2 * cs.length + 2) depth (Cursor.skipBlanks ⟨cs, 0⟩) with
  | .error e => .error e
  | .ok (v, c) =>
    let c := c.skipBlanks
    if c.rest.isEmpty then .ok v else c.fault

/-- Reads all of a text as one value between blanks. A text of `n` characters never has more than
`n` lists and objects inside one another. -/
def read (s : String) : Except ReadError Value := readWithin s.length s

end AuditReport.Json
