import AuditReport.Calendar.Strict
import AuditReport.Number.Word
import AuditReport.Request.Schema
import AuditReport.Value.Order

/-! Readers for texts, names, truth values, numbers and moments. They say which spellings each type
admits; bytes are admitted wherever the text that they encode is. -/

namespace AuditReport.Schema

/-- The text that some bytes encode. None of them encodes a surrogate, so the characters that stand
for surrogates are not found in one. -/
def ofBytes? (bs : List UInt8) : Option String :=
  (String.fromUTF8? ⟨bs.toArray⟩).filter Text.Surrogate.isPaired

/-- What is read of a value that is given as a text or as the bytes of one; `fault` is that of
bytes that are no text. -/
def spelling (fault : IssueKind) : Value → Option (Reading String)
  | .text s =>
    some (if Text.Surrogate.isPaired s then .ok s else refuse .brokenText (.text s))
  | .bytes bs => some (match ofBytes? bs with
    | some s => .ok s
    | none => refuse fault (.bytes bs))
  | _ => none

/-- A text, be it one with lone surrogates. -/
def text : Reader String
  | .text s => .ok s
  | v => (spelling .brokenText v).getD (refuse .notText v)

/-- A text with at least one character. -/
def filledText : Reader String := fun v => do
  let s ← (spelling .brokenText v).getD (refuse .notText v)
  if s.isEmpty then refuse .emptyText v else .ok s

/-- One of a fixed set of names. -/
def choice {α : Type} (ofName? : String → Option α) : Reader α := fun v => do
  let s ← (spelling .notAChoice v).getD (refuse .notAChoice v)
  match ofName? s with
  | some a => .ok a
  | none => refuse .notAChoice v

/-! ## Integers -/

/-- The blanks around numbers in texts. -/
def trimNumber (cs : List Char) : List Char := Text.trimBy Text.isNumberBlank cs

/-- A digit other than zero, or a minus sign: what a number starts with behind its zeros. -/
def startsNumber (c : Char) : Bool := c = '-' || ('1' ≤ c && c ≤ '9')

/-- What is left of a number whose zeros and underscores so far, `last` being the latest, are
dropped. One of them is kept where nothing or a point follows. -/
def afterZeros (last : Char) : List Char → Option (List Char)
  | [] => some [last]
  | c :: rest =>
    if c = '0' ∨ c = '_' then afterZeros c rest
    else if startsNumber c then some (c :: rest)
    else if c = '.' then some (last :: c :: rest)
    else none

/-- A number without the zeros in front of its other digits. -/
def withoutZeros? : List Char → Option (List Char)
  | [] => none
  | c :: rest =>
    if c = '0' then afterZeros c rest else if startsNumber c then some (c :: rest) else none

/-- A number without a fraction that has nothing but zeros. -/
def withoutZeroFraction (cs : List Char) : List Char :=
  match cs.dropWhile (· != '.') with
  | '.' :: c :: zeros => if (c :: zeros).all (· == '0') then cs.takeWhile (· != '.') else cs
  | _ => cs

/-- The text without its underscores, if they are single and inside it. -/
def withoutUnderscores? (cs : List Char) : Option (List Char) :=
  if cs.head? = some '_' ∨ cs.getLast? = some '_' ∨ (cs.zip (cs.drop 1)).contains ('_', '_') then none
  else some (cs.filter (· != '_'))

/-- An integer without a sign or zeros in front: digits of which the first is not zero, unless it
is alone. -/
def plainInteger? (negative : Bool) (cs : List Char) : Except IssueKind Int :=
  let digits := cs.takeWhile Text.isAsciiDigit
  if digits.isEmpty || (digits.head? = some '0' && 1 < digits.length) then .error .unreadableInteger
  else if Number.digitLimit < digits.length + negative.toNat then .error .oversizedInteger
  else if !(cs.dropWhile Text.isAsciiDigit).isEmpty then .error .unreadableInteger
  else
    let n : Int := Number.ofDigits (digits.filterMap Text.asciiDigit?)
    .ok (if negative then -n else n)

/-- An integer in a text between blanks: one plus sign, zeros in front, single underscores and a
fraction of zeros are passed over. -/
def integerText (s : String) : Except IssueKind Int := do
  let cs ← match trimNumber s.toList with
    | '+' :: '-' :: _ => throw .unreadableInteger
    | '+' :: rest => pure rest
    | cs => pure cs
  match withoutZeros? cs with
  | none => throw .unreadableInteger
  | some cs =>
    let cs := withoutZeroFraction cs
    match (withoutUnderscores? cs).getD cs with
    | '-' :: rest => plainInteger? true rest
    | cs => plainInteger? false cs

/-- An integer: itself, a truth value as 1 or 0, a whole double of magnitude below `2 ^ 63`, or a
text. -/
def integer : Reader Int
  | .int n => .ok n
  | .bool b => .ok (if b then 1 else 0)
  | .float x =>
    if !Number.isFinite x then refuse .notFinite (.float x)
    else match Number.toInt? x with
      | none => refuse .fractionalInteger (.float x)
      | some n => if n.natAbs < Number.wordBound then .ok n else refuse .oversizedInteger (.float x)
  | v => do
    let s ← (spelling .unreadableInteger v).getD (refuse .notAnInteger v)
    match integerText s with
    | .ok n => .ok n
    | .error kind => refuse kind v

/-- An integer between bounds. -/
def integerIn (least : Int) (greatest : Option Int) : Reader Int := fun v => do
  let n ← integer v
  if greatest.any (· < n) then refuse .aboveMaximum v
  else if n < least then refuse .belowMinimum v
  else .ok n

/-! ## Truth values -/

/-- The words for true and false, in lower case. -/
def booleanWord? (s : String) : Option Bool :=
  if ["1", "t", "true", "y", "yes", "on"].contains s then some true
  else if ["0", "f", "false", "n", "no", "off"].contains s then some false
  else none

/-- The truth value that 1 or 0 stands for. -/
def booleanNumber? (n : Int) : Option Bool :=
  if n = 1 then some true else if n = 0 then some false else none

/-- A truth value: itself, 1 or 0, or a word for it in either case. Other numbers are told from
values of other kinds as long as they are whole and fit into a word. -/
def boolean : Reader Bool
  | .bool b => .ok b
  | .int n =>
    if Number.isWord n then
      match booleanNumber? n with
      | some b => .ok b
      | none => refuse .unreadableBoolean (.int n)
    else refuse .notABoolean (.int n)
  | .float x =>
    match (Number.toInt? x).filter fun n => n.natAbs < Number.wordBound with
    | some n => match booleanNumber? n with
      | some b => .ok b
      | none => refuse .unreadableBoolean (.float x)
    | none => refuse .notABoolean (.float x)
  | v => do
    let s ← (spelling .unreadableBoolean v).getD (refuse .notABoolean v)
    match booleanWord? (Text.foldAscii s) with
    | some b => .ok b
    | none => refuse .unreadableBoolean v

/-! ## Doubles -/

/-- A double in a text of ASCII digits, or the name of infinity or not-a-number. -/
def doubleText? (cs : List Char) : Option Float :=
  let (negative, body) := Number.takeSign cs
  let value? (c : Char) : Option Nat := Text.asciiDigit? c
  if cs.contains '_' then none
  else
    let magnitude := match Number.namedFloat? (Text.foldAscii (String.ofList body)) with
      | some x => some x
      | none => Number.readDecimal? value? body
    magnitude.map fun x => if negative then -x else x

/-- A double: itself, an integer in its range, a truth value as 1 or 0, or a text. -/
def double : Reader Float
  | .float x => .ok x
  | .int n => match Number.ofInt? n with
    | some x => .ok x
    | none => refuse .notANumber (.int n)
  | .bool b => .ok (if b then 1.0 else 0.0)
  | v => do
    let s ← (spelling .unreadableNumber v).getD (refuse .notANumber v)
    match (doubleText? (trimNumber s.toList)).or
        ((withoutUnderscores? s.toList).bind doubleText?) with
    | some x => .ok x
    | none => refuse .unreadableNumber v

/-! ## Moments -/

/-- The moment of a number; `v` is the number as given. -/
def numberedMoment (found : Option Calendar.MomentReading) (v : Value) : Reading Calendar.Moment :=
  match found with
  | some (.moment t) => .ok t
  | _ => refuse .outsideCalendar v

/-- A moment: itself, the start of a day, a count of seconds, or a text. -/
def moment : Reader Calendar.Moment
  | .moment t => .ok t
  | .day d => .ok (Calendar.Moment.ofDay d)
  | .int n =>
    if Number.isWord n then numberedMoment (Calendar.Timestamp.ofCount n 0) (.int n)
    else match Number.ofInt? n with
      | some x => numberedMoment (Calendar.Timestamp.ofFloat x) (.int n)
      | none => refuse .notAMoment (.int n)
  | .float x => numberedMoment (Calendar.Timestamp.ofFloat x) (.float x)
  | v => do
    let s ← (spelling .unreadableMoment v).getD (refuse .notAMoment v)
    match Calendar.Strict.read s.toList with
    | some (.moment t) => .ok t
    | some .yearZero => refuse .outsideCalendar v
    | none => refuse .unreadableMoment v

end AuditReport.Schema
