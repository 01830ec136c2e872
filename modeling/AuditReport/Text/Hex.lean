import AuditReport.Text.Character

/-! Hexadecimal text of bytes: two lower-case digits a byte when written; either case, and blanks
between the pairs, when read. -/

namespace AuditReport.Text.Hex

/-- The lower-case hexadecimal digit of a number below sixteen. -/
def digit (n : Nat) : Char :=
  if n < 10 then Char.ofNat (48 + n) else Char.ofNat (87 + n)

/-- The value of a hexadecimal digit of either case. -/
def value? (c : Char) : Option Nat :=
  if '0' ≤ c ∧ c ≤ '9' then some (c.toNat - 48)
  else if 'a' ≤ c ∧ c ≤ 'f' then some (c.toNat - 87)
  else if 'A' ≤ c ∧ c ≤ 'F' then some (c.toNat - 55)
  else none

/-- The last `width` hexadecimal digits of a number, zeros in front. -/
def digits : (width n : Nat) → List Char
  | 0, _ => []
  | width + 1, n => digits width (n / 16) ++ [digit (n % 16)]

/-- The two digits of a byte. -/
def ofByte (b : UInt8) : List Char := [digit (b.toNat / 16), digit (b.toNat % 16)]

/-- The canonical form: two lower-case digits a byte. -/
def encode (bs : List UInt8) : List Char := bs.flatMap ofByte

/-- A blank that may stand between two pairs of digits. -/
def isGap (c : Char) : Bool :=
  c = ' ' || (0x9 ≤ c.toNat && c.toNat ≤ 0xD)

/-- Reads pairs of digits of either case. Blanks may stand before, between and after the pairs,
never inside one. -/
def decode : List Char → Option (List UInt8)
  | [] => some []
  | c :: rest =>
    if isGap c then decode rest
    else match rest with
      | [] => none
      | d :: rest => do
        let high ← value? c
        let low ← value? d
        return UInt8.ofNat (high * 16 + low) :: (← decode rest)

end AuditReport.Text.Hex
