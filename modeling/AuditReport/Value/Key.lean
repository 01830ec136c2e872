import AuditReport.Value.Order

/-! Values as keys. -/

namespace AuditReport

/-- A scalar as a key. Keys are the same when their values are equal. -/
structure Key where
  value : Value
  scalar : value.isScalar = true

namespace Key

instance : BEq Key := ⟨fun a b => a.value.equal b.value⟩

/-- The key that a value makes; lists and objects make none. -/
def ofValue? (v : Value) : Option Key := if h : v.isScalar = true then some ⟨v, h⟩ else none

/-- The keys that some values make, if all of them make one. -/
def ofValues? (vs : List Value) : Option (List Key) := vs.mapM ofValue?

end Key

end AuditReport
