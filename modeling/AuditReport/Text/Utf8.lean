/-! Reading UTF-8 bytes that may be damaged: every longest damaged part becomes one replacement
character, or is left out. -/

namespace AuditReport.Text.Utf8

/-- What is still to come of a character: how many bytes, the value so far, and the range in which
the next byte has to be. -/
structure Pending where
  left : Nat
  value : Nat
  low : Nat
  high : Nat

/-- The character that stands for damage. -/
def replacement : Char := '\ufffd'

/-- What a byte starts: a character of its own, a longer one, or nothing. -/
def begin? (b : Nat) : Option (Char ⊕ Pending) :=
  if b < 0x80 then some (.inl (Char.ofNat b))
  else if b < 0xC2 then none
  else if b < 0xE0 then some (.inr ⟨1, b - 0xC0, 0x80, 0xBF⟩)
  else if b < 0xF0 then
    some (.inr ⟨2, b - 0xE0, if b = 0xE0 then 0xA0 else 0x80, if b = 0xED then 0x9F else 0xBF⟩)
  else if b < 0xF5 then
    some (.inr ⟨3, b - 0xF0, if b = 0xF0 then 0x90 else 0x80, if b = 0xF4 then 0x8F else 0xBF⟩)
  else none

/-- The characters of some bytes, `pending` being the character that they continue and `mark` what
stands for a damaged part. -/
def readFrom (mark : List Char) (pending : Option Pending) : List UInt8 → List Char
  | [] => if pending.isSome then mark else []
  | byte :: rest =>
    let b := byte.toNat
    let fresh (damage : List Char) : List Char :=
      match begin? b with
      | some (.inl c) => damage ++ c :: readFrom mark none rest
      | some (.inr p) => damage ++ readFrom mark (some p) rest
      | none => damage ++ mark ++ readFrom mark none rest
    match pending with
    | none => fresh []
    | some p =>
      if p.low ≤ b ∧ b ≤ p.high then
        let value := 64 * p.value + b % 64
        if p.left = 1 then Char.ofNat value :: readFrom mark none rest
        else readFrom mark (some ⟨p.left - 1, value, 0x80, 0xBF⟩) rest
      else fresh mark

/-- The characters of some bytes, with a replacement character for each damaged part. -/
def read (bytes : List UInt8) : List Char := readFrom [replacement] none bytes

/-- The characters of some bytes without the damaged parts. -/
def readIntact (bytes : List UInt8) : List Char := readFrom [] none bytes

end AuditReport.Text.Utf8
