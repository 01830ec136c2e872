import AuditReport.Http.Message

/-! Requests from pages of another origin. Every origin is welcome, with credentials too. -/

namespace AuditReport.Http.CrossOrigin

/-- The methods that pages of another origin may use. -/
def methods : List String := ["DELETE", "GET", "HEAD", "OPTIONS", "PATCH", "POST", "PUT"]

/-- The header that names the origins that may read an answer. -/
def allowOrigin : String := "access-control-allow-origin"

/-- The method that a page asks to use, and its origin, if the request does no more than ask. -/
def asked? (r : Request) : Option (String × String) :=
  if r.method = "OPTIONS" then do
    let origin ← r.header? "origin"
    let method ← r.header? "access-control-request-method"
    return (origin, method)
  else none

/-- The answer to a page that asks for a method. -/
def answer (origin method : String) : Response :=
  let allowed := methods.contains method
  ⟨if allowed then 200 else 400,
    [(allowOrigin, origin), ("content-type", "text/plain; charset=utf-8")],
    .text (if allowed then "OK" else "Disallowed CORS method")⟩

/-- Lets the page that sent a request read the answer, which names the page's origin. -/
def expose (r : Request) (answer : Response) : Response :=
  match r.header? "origin" with
  | none => answer
  | some origin => answer.withHeader allowOrigin origin

end AuditReport.Http.CrossOrigin
