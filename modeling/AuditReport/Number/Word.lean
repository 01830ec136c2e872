/-! Integers that fit into a signed word of 64 bits. -/

namespace AuditReport.Number

/-- The least natural number that does not fit: two to the power of 63. -/
def wordBound : Nat := 0x8000000000000000

/-- An integer that fits. -/
def isWord (n : Int) : Bool := -(wordBound : Int) ≤ n && n < wordBound

end AuditReport.Number
