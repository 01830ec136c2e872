/-! Surrogates: sixteen-bit units of which two make one character. Escapes can name one without its
partner. Such a unit is no character, so a text holds a private-use character in its place. These
private-use characters, U+10F000 to U+10F7FF, do not occur in texts as themselves. -/

namespace AuditReport.Text.Surrogate

/-- The least surrogate. -/
def least : Nat := 0xD800

/-- The least surrogate that comes second in a pair. -/
def leastSecond : Nat := 0xDC00

/-- The first unit behind the surrogates. -/
def bound : Nat := 0xE000

/-- The private-use character that stands for the least surrogate. A text that has one of U+10F000 to
U+10F7FF as a character of its own is outside the model: here it is taken for one with a lone
surrogate. -/
def carrier : Nat := 0x10F000

/-- The unit can come first in a pair. -/
def isFirst (n : Nat) : Bool := least ≤ n && n < leastSecond

/-- The unit can come second in a pair. -/
def isSecond (n : Nat) : Bool := leastSecond ≤ n && n < bound

/-- The unit is a surrogate. -/
def isSurrogate (n : Nat) : Bool := isFirst n || isSecond n

/-- The character that a pair of surrogates makes. -/
def ofPair (first second : Nat) : Char :=
  Char.ofNat (0x10000 + (first - least) * 0x400 + (second - leastSecond))

/-- The character for a unit: the private-use one for a surrogate. -/
def ofUnit (n : Nat) : Char :=
  if isSurrogate n then Char.ofNat (carrier + (n - least)) else Char.ofNat n

/-- The surrogate that a character stands for. -/
def unit? (c : Char) : Option Nat :=
  if carrier ≤ c.toNat ∧ c.toNat < carrier + (bound - least) then some (least + (c.toNat - carrier))
  else none

/-- A text without lone surrogates. Only such a text has a UTF-8 form. -/
def isPaired (s : String) : Bool := s.toList.all fun c => (unit? c).isNone

end AuditReport.Text.Surrogate
