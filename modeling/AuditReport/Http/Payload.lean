import AuditReport.Text.Utf8

/-! What requests carry: bytes, which need not be text. -/

namespace AuditReport.Http

/-- The bytes that a request carries. -/
structure Payload where
  bytes : List UInt8
  deriving DecidableEq, Repr

namespace Payload

/-- A text as its UTF-8 bytes. -/
def ofText (s : String) : Payload := ⟨s.toList.flatMap String.utf8EncodeChar⟩

instance : Coe String Payload := ⟨ofText⟩

/-- The text of the bytes as UTF-8, without those that are damaged. -/
def text (p : Payload) : String := String.ofList (Text.Utf8.readIntact p.bytes)

end Payload

end AuditReport.Http
